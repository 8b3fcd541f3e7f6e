import BsaAcs.Dt.Gic
import BsaAcs.Dt.Theorems.Fdt

-- What the GIC info table of a device tree should hold, and when it does.

namespace Dt

open GicInfo (Hdr)

-- A list of filled entries, each with its type.
def framesOf (type : Nat) (entries : List (Nat × Frame)) : List Frame :=
  (entries.filter (·.1 = type)).map (·.2)

def tagged (type : Nat) (frames : List Frame) : List (Nat × Frame) :=
  frames.map (type, ·)

theorem framesOf_append {type : Nat} {l l' : List (Nat × Frame)} :
    framesOf type (l ++ l') = framesOf type l ++ framesOf type l' := by
  simp [framesOf]

theorem framesOf_tagged {type type' : Nat} {frames : List Frame} :
    framesOf type (tagged type' frames) = if type' = type then frames else [] := by
  rw [framesOf, tagged, List.filter_map]
  split
  case isTrue h  => simp [Function.comp_def, h]
  case isFalse h => simp [Function.comp_def, h]

-- The entries before the one that `GicEntry` points to.
def GicCursor.filled (c : GicCursor) : List (Nat × Frame) :=
  (List.range c.gicEntry).map fun k => ((c.table.gicInfo k).type, c.taken k)

-- A number of several cells.
def cellNumber (reg : Nat → BitVec 32) : Nat → Nat → Nat
  | 0, _         => 0
  | n + 1, index => (reg index).toNat * 2 ^ (32 * n) + cellNumber reg n (index + 1)

-- The node of the GIC that the function takes, with the number of its redistributors.
structure GicReg where
  version  : Nat
  addrCell : Nat
  sizeCell : Nat
  reg      : Property
  numOfRd  : Nat

namespace GicReg

variable (g : GicReg)

def count : Nat :=
  g.reg.len / 4 / (g.addrCell + g.sizeCell)

-- The `k`-th address and length of the property.
def frame (k : Nat) : Frame :=
  let index := k * (g.addrCell + g.sizeCell)
  { base   := cellNumber g.reg.cells g.addrCell index
    length := cellNumber g.reg.cells g.sizeCell (index + g.addrCell)
    cells  := List.range' index (g.addrCell + g.sizeCell) }

def OneOrTwo : Prop :=
  (g.addrCell = 1 ∨ g.addrCell = 2) ∧ (g.sizeCell = 1 ∨ g.sizeCell = 2)

end GicReg

section

variable (fdt : Libfdt)

def gicSearch : Option (Nat × Int) :=
  match gicFind fdt gicv3DtArr with
  | some offset => some (3, offset)
  | none        => (gicFind fdt gicv2DtArr).map fun offset => (2, offset)

def gicRegOf (version : Nat) (offset : Int) : Option GicReg :=
  let parent := fdt.parentOffset offset
  if fdt.sizeCells parent < 0 ∨ fdt.addressCells parent < 0 then none
  else (fdt.getprop offset "reg").map fun reg => {
    version
    addrCell := (fdt.addressCells parent).toNat
    sizeCell := (fdt.sizeCells parent).toNat
    reg
    numOfRd  := if version = 3 then (numOfRdRegions fdt offset).toNat else 0 }

def gicReg : Option GicReg :=
  (gicSearch fdt).bind fun (version, offset) => gicRegOf fdt version offset

end

-- The counts of the header are those of the entries. The CPU interfaces are taken from the address behind those of the
-- distributor and of the redistributors, if there is one, the GICH of a GICv2 is taken from the one behind that.
structure FilledRight (reg : Option GicReg) (numOfPe : Nat) (hdr : Hdr) (entries : List (Nat × Frame)) : Prop where
  numGicd     : hdr.numGicd = (framesOf Gic.entryTypeGicd entries).length
  numGicrd    : hdr.numGicrd =
    (framesOf Gic.entryTypeGicrGicrd entries).length + (framesOf Gic.entryTypeGiccGicrd entries).length
  numIts      : hdr.numIts = (framesOf Gic.entryTypeGicits entries).length
  numMsiFrame : hdr.numMsiFrame = (framesOf Gic.entryTypeGicMsiFrame entries).length
  cpuif       : ∀ g ∈ reg, framesOf Gic.entryTypeCpuif entries =
    if g.numOfRd + 2 ≤ g.count then List.replicate numOfPe (g.frame (g.numOfRd + 1)) else []
  gich        : ∀ g ∈ reg, g.version = 2 →
    framesOf Gic.entryTypeGich entries = if 3 ≤ g.count then [g.frame 2] else []

-- The table ends directly behind the entries that have been filled in.
structure GicRight (fdt : Libfdt) (numOfPe : Nat) (r : GicCursor) : Prop where
  ended  : (r.table.gicInfo r.gicEntry).type = Gic.entryTypeEnd
  filled : FilledRight (gicReg fdt) numOfPe r.table.header r.filled

-- The v2m frames and the ITS nodes of a tree.
structure GicTree (fdt : Libfdt) (frames its : List Nat) : Prop where
  frames : fdt.Lists "arm,gic-v2m-frame" frames
  its    : fdt.Lists "arm,gic-v3-its" its

-- What a cursor has filled in over the memory `m`.
structure GicCursor.Holds (m : Nat → GicInfo.Entry) (hdr : Hdr) (entries : List (Nat × Frame)) (index : Nat)
    (c : GicCursor) : Prop where
  hdr    : c.table.header = hdr
  filled : c.filled = entries
  index  : c.index = index
  beyond : ∀ k, c.gicEntry ≤ k → c.table.gicInfo k = m k

-- The table of a cursor is ended, with the entries that have been filled in.
structure GicCursor.Returned (hdr : Hdr) (entries : List (Nat × Frame)) (r : GicCursor) : Prop where
  hdr    : r.table.header = hdr
  filled : r.filled = entries
  ended  : (r.table.gicInfo r.gicEntry).type = Gic.entryTypeEnd

-- What the function does with what a part of it returns.
def gicReturn : Except (Option GicCursor) GicCursor → Option GicCursor
  | .error returned => returned
  | .ok c           => some c.finish

-- The frames of the redistributors.
def rdFrames (addrCell sizeCell : Int) (reg : Nat → BitVec 32) : Nat → Nat → List Frame
  | 0, _         => []
  | n + 1, index =>
    let (frame, index) := readFrame addrCell sizeCell reg index
    frame :: rdFrames addrCell sizeCell reg n index

-- The cells that are read for a number.
def cellWidth (count : Int) : Nat :=
  if count = 2 then 2 else 1

section

variable {reg : Nat → BitVec 32} {addrCell sizeCell : Int} {index : Nat}

theorem readCells_index (count : Int) : (readCells count reg index).2 = index + cellWidth count := by
  rw [readCells, cellWidth]
  split <;> rfl

theorem readFrame_index (reg : Nat → BitVec 32) :
    (readFrame addrCell sizeCell reg index).2 = index + (cellWidth addrCell + cellWidth sizeCell) := by
  simp only [readFrame, readCells_index]
  omega

theorem readFrame_cells : (readFrame addrCell sizeCell reg index).1.cells =
    List.range' index (cellWidth addrCell + cellWidth sizeCell) := by
  simp only [readFrame, readCells_index]
  congr 1
  omega

theorem cellNumber_eq {n : Nat} (h : n = 1 ∨ n = 2) : cellNumber reg n index = (readCells n reg index).1 := by
  rcases h with rfl | rfl
  · simp [cellNumber, readCells]
  · simp only [cellNumber, readCells, Nat.cast_ofNat, if_true, BitVec.toNat_append, Nat.mul_zero, Nat.pow_zero, Nat.mul_one,
      Nat.add_zero]
    rw [← Nat.shiftLeft_add_eq_or_of_lt (reg (index + 1)).isLt, Nat.shiftLeft_eq]

theorem cellWidth_eq {n : Nat} (h : n = 1 ∨ n = 2) : cellWidth n = n := by
  rcases h with rfl | rfl <;> rfl

-- Other numbers of cells are read as one.
theorem cellWidth_add_iff {a s : Nat} :
    cellWidth a + cellWidth s = a + s ↔ (a = 1 ∨ a = 2) ∧ (s = 1 ∨ s = 2) := by
  simp only [cellWidth]
  split <;> split <;> omega

-- What is read for the `k`-th address is that address, if it has one or two cells, and so has its length.
theorem readFrame_eq_frame_iff {g : GicReg} {k : Nat} :
    (readFrame g.addrCell g.sizeCell g.reg.cells (k * (cellWidth g.addrCell + cellWidth g.sizeCell))).1 = g.frame k ↔
      g.OneOrTwo := by
  constructor
  case mp =>
    intro h
    have hc := congrArg (fun f => f.cells.length) h
    simp only [readFrame_cells, GicReg.frame, List.length_range'] at hc
    exact cellWidth_add_iff.mp hc
  case mpr =>
    intro ⟨ha, hs⟩
    rw [cellWidth_eq ha, cellWidth_eq hs, GicReg.frame, cellNumber_eq ha, cellNumber_eq hs]
    simp only [readFrame, readCells_index, cellWidth_eq ha, cellWidth_eq hs, Frame.mk.injEq, true_and]
    congr 1
    omega

end

namespace GicCursor.Holds

variable {m : Nat → GicInfo.Entry} {hdr : Hdr} {entries : List (Nat × Frame)} {index : Nat} {c : GicCursor}
  {reg : Nat → BitVec 32} {addrCell sizeCell : Int}

theorem put (h : c.Holds m hdr entries index) (type : Nat) (frame : Frame) {f : GicInfo.Entry → GicInfo.Entry}
    (hf : ∀ entry, (f entry).type = entry.type) : (c.put type frame f).Holds m hdr (entries ++ [(type, frame)]) index where
  hdr    := h.hdr
  index  := h.index
  filled := by
    rw [← h.filled]
    simp only [GicCursor.filled, GicCursor.put, GicInfo.Cursor.fill, GicInfo.Cursor.modify, List.range_succ,
      List.map_append, List.map_singleton, Function.update_self, hf]
    congr 1
    apply List.map_congr_left
    intro k hk
    have hne : k ≠ c.gicEntry := (List.mem_range.mp hk).ne
    rw [Function.update_of_ne hne, Function.update_of_ne hne]
  beyond := by
    intro k hk
    have hk : c.gicEntry + 1 ≤ k := hk
    rw [← h.beyond k (by omega)]
    exact Function.update_of_ne (by omega) ..

theorem countHdr (h : c.Holds m hdr entries index) (f : Hdr → Hdr) : (c.countHdr f).Holds m (f hdr) entries index where
  hdr    := congrArg f h.hdr
  index  := h.index
  filled := h.filled
  beyond := h.beyond

theorem setIndex (h : c.Holds m hdr entries index) (index' : Nat) :
    Holds m hdr entries index' { c with index := index' } where
  hdr    := h.hdr
  index  := rfl
  filled := h.filled
  beyond := h.beyond

theorem gicEntry (h : c.Holds m hdr entries index) : c.gicEntry = entries.length := by
  rw [← h.filled, GicCursor.filled, List.length_map, List.length_range]

theorem fillFrame (h : c.Holds m hdr entries index) (type : Nat) :
    (c.fillFrame addrCell sizeCell reg type).Holds m hdr
      (entries ++ tagged type [(readFrame addrCell sizeCell reg index).1]) (index + (cellWidth addrCell + cellWidth sizeCell)) := by
  rw [← readFrame_index reg, ← h.index]
  exact (h.put type (readFrame addrCell sizeCell reg c.index).1 fun _ => rfl).setIndex _

theorem fillGicrd (addrCell sizeCell : Int) (reg : Nat → BitVec 32) (h : c.Holds m hdr entries index) (n : Nat) :
    ((·.fillGicrd addrCell sizeCell reg)^[n] c).Holds m { hdr with numGicrd := hdr.numGicrd + n }
      (entries ++ tagged Gic.entryTypeGicrGicrd (rdFrames addrCell sizeCell reg n index))
      (index + n * (cellWidth addrCell + cellWidth sizeCell)) := by
  induction n generalizing c hdr entries index
  case zero => simpa [rdFrames, tagged] using h
  case succ n ih =>
    rw [Function.iterate_succ_apply]
    have hone : (c.fillGicrd addrCell sizeCell reg).Holds m _ _ _ :=
      (h.fillFrame Gic.entryTypeGicrGicrd).countHdr fun h => { h with numGicrd := h.numGicrd + 1 }
    have hn := ih hone
    have hi : index + (cellWidth addrCell + cellWidth sizeCell) + n * (cellWidth addrCell + cellWidth sizeCell) =
        index + (n + 1) * (cellWidth addrCell + cellWidth sizeCell) := by
      rw [Nat.succ_mul]
      omega
    have he : hdr.numGicrd + 1 + n = hdr.numGicrd + (n + 1) := by omega
    simpa [rdFrames, readFrame_index, tagged, hi, he] using hn

theorem fillGicd (addrCell sizeCell : Int) (reg : Nat → BitVec 32) (h : c.Holds m hdr entries index) :
    (c.fillGicd addrCell sizeCell reg).Holds m { hdr with numGicd := hdr.numGicd + 1 }
      (entries ++ tagged Gic.entryTypeGicd [(readFrame addrCell sizeCell reg index).1])
      (index + (cellWidth addrCell + cellWidth sizeCell)) :=
  (h.fillFrame Gic.entryTypeGicd).countHdr fun h => { h with numGicd := h.numGicd + 1 }

theorem fillCpuif (h : c.Holds m hdr entries index) (numOfPe : Nat) :
    (c.fillCpuif addrCell sizeCell reg numOfPe).Holds m hdr
      (entries ++ tagged Gic.entryTypeCpuif (List.replicate numOfPe (readFrame addrCell sizeCell reg index).1))
      (index + (cellWidth addrCell + cellWidth sizeCell)) := by
  have hiter (frame : Frame) (n : Nat) (c : GicCursor) (entries : List (Nat × Frame)) (h : c.Holds m hdr entries index) :
      ((·.put Gic.entryTypeCpuif frame id)^[n] c).Holds m hdr
        (entries ++ tagged Gic.entryTypeCpuif (List.replicate n frame)) index := by
    induction n generalizing c entries
    case zero => simpa [tagged] using h
    case succ n ih =>
      rw [Function.iterate_succ_apply]
      have hn := ih _ _ (h.put Gic.entryTypeCpuif frame (f := id) fun _ => rfl)
      simpa [tagged, List.replicate_succ] using hn
  rw [← readFrame_index reg, ← h.index]
  exact (hiter (readFrame addrCell sizeCell reg c.index).1 numOfPe c entries (h.index ▸ h)).setIndex _

theorem finish (h : c.Holds m hdr entries index) : c.finish.Returned hdr entries where
  hdr    := h.hdr
  filled := by
    rw [← h.filled]
    apply List.map_congr_left
    intro k hk
    have hne : k ≠ c.gicEntry := (List.mem_range.mp hk).ne
    simp only [GicCursor.finish, GicInfo.Cursor.finish, GicInfo.Cursor.modify, Function.update_of_ne hne]
  ended  := by
    simp only [GicCursor.finish, GicInfo.Cursor.finish, GicInfo.Cursor.modify, Function.update_self]

end GicCursor.Holds

-- The v2m frames and the ITS nodes.

section

variable {fdt : Libfdt} {m : Nat → GicInfo.Entry} {hdr : Hdr} {entries : List (Nat × Frame)} {index : Nat}
  {c : GicCursor} {addrCell sizeCell : Int} {nodes pre : List Nat}

theorem gicv2mNode_reg (addrCell sizeCell : Int) {node : Int} {reg : Property} (h : c.Holds m hdr entries index)
    (hr : fdt.getprop node "reg" = some reg) :
    ∃ c' frame index', gicv2mNode fdt addrCell sizeCell c node = .ok c' ∧
      c'.Holds m { hdr with numMsiFrame := hdr.numMsiFrame + 1 }
        (entries ++ tagged Gic.entryTypeGicMsiFrame [frame]) index' := by
  have hput := (h.setIndex 0).put Gic.entryTypeGicMsiFrame (readFrame addrCell sizeCell reg.cells 0).1
    (f := fun entry => { entry with
      spiBase  := cellOrZero fdt node "arm,msi-base-spi"
      spiCount := cellOrZero fdt node "arm,msi-num-spis" }) fun _ => rfl
  have hcount := hput.countHdr fun h => { h with numMsiFrame := h.numMsiFrame + 1 }
  refine ⟨_, _, _, ?_, hcount.setIndex (readFrame addrCell sizeCell reg.cells 0).2⟩
  rw [gicv2mNode, hr]

-- The frames of the nodes, or the return at the first one without addresses.
theorem foldlM_gicv2mNode (fdt : Libfdt) (addrCell sizeCell : Int) (nodes : List Nat) (h : c.Holds m hdr entries index) :
    if ∀ node ∈ nodes, (fdt.getprop node "reg").isSome then
      ∃ c' frames index', nodes.foldlM (fun c (node : Nat) => gicv2mNode fdt addrCell sizeCell c node) c = .ok c' ∧
        frames.length = nodes.length ∧
        c'.Holds m { hdr with numMsiFrame := hdr.numMsiFrame + frames.length }
          (entries ++ tagged Gic.entryTypeGicMsiFrame frames) index'
    else
      ∃ c' hdr' more index', nodes.foldlM (fun c (node : Nat) => gicv2mNode fdt addrCell sizeCell c node) c =
        .error (some c') ∧ c'.Holds m hdr' (entries ++ more) index' := by
  induction nodes generalizing c hdr entries index
  case nil => exact ⟨c, [], index, rfl, rfl, by simpa [tagged] using h⟩
  case cons node nodes ih =>
    rw [List.foldlM_cons]
    cases hr : fdt.getprop node "reg"
    case none =>
      have hno : ¬∀ n ∈ node :: nodes, (fdt.getprop (n : Nat) "reg").isSome := by
        intro hall
        simpa [hr] using hall node List.mem_cons_self
      rw [if_neg hno]
      refine ⟨{ c with index := 0 }, hdr, [], 0, ?_, by simpa using h.setIndex 0⟩
      simp only [gicv2mNode, hr]
      rfl
    case some reg =>
      have ⟨c₁, frame, i₁, hnode, h₁⟩ := gicv2mNode_reg addrCell sizeCell h hr
      have hrest := ih h₁
      rw [hnode]
      simp only [List.forall_mem_cons, hr, Option.isSome_some, true_and]
      split at hrest
      case isTrue hall =>
        have ⟨c', frames, i', hf, hlen, h'⟩ := hrest
        rw [if_pos hall]
        refine ⟨c', frame :: frames, i', hf, by simpa using hlen, ?_⟩
        have he : hdr.numMsiFrame + 1 + frames.length = hdr.numMsiFrame + (frames.length + 1) := by omega
        simpa [tagged, he] using h'
      case isFalse hall =>
        have ⟨c', hdr', more, i', hf, h'⟩ := hrest
        rw [if_neg hall]
        exact ⟨c', hdr', tagged Gic.entryTypeGicMsiFrame [frame] ++ more, i', hf, by rwa [← List.append_assoc]⟩

theorem gicv2mLoop_eq {fuel : Nat} (h : fdt.Lists "arm,gic-v2m-frame" (pre ++ nodes)) (hf : nodes.length < fuel) :
    gicv2mLoop fdt addrCell sizeCell fuel (Libfdt.first nodes) c =
      nodes.foldlM (fun c (node : Nat) => gicv2mNode fdt addrCell sizeCell c node) c := by
  apply h.loop_eq (gicv2mNode fdt addrCell sizeCell) (gicv2mLoop fdt addrCell sizeCell) ?_ hf
  intro fuel offset c
  rw [gicv2mLoop]
  cases gicv2mNode fdt addrCell sizeCell c offset <;> rfl

theorem itsLoop_holds {fuel : Nat} (hl : fdt.Lists "arm,gic-v3-its" (pre ++ nodes)) (hf : nodes.length < fuel)
    (h : c.Holds m hdr entries index) :
    ∃ c', itsLoop fdt fuel (Libfdt.first nodes) c = .ok c' ∧
      c'.Holds m { hdr with numIts := hdr.numIts + nodes.length } entries index := by
  have hfold : itsLoop fdt fuel (Libfdt.first nodes) c =
      nodes.foldlM (fun c _ => .ok (c.countHdr fun h => { h with numIts := h.numIts + 1 })) c :=
    hl.loop_eq (fun c _ => .ok (c.countHdr fun h => { h with numIts := h.numIts + 1 })) (itsLoop fdt) (fun _ _ _ => rfl) hf c
  rw [hfold]
  clear hfold hl hf
  induction nodes generalizing c hdr
  case nil => exact ⟨c, rfl, h⟩
  case cons node nodes ih =>
    have ⟨c', hc, h'⟩ := ih (h.countHdr fun h => { h with numIts := h.numIts + 1 })
    refine ⟨c', hc, ?_⟩
    have he : hdr.numIts + 1 + nodes.length = hdr.numIts + (nodes.length + 1) := by omega
    rwa [List.length_cons, ← he]

-- The v2m frames can be read: the cells are those of the parent of the first one.
def V2mReadable (fdt : Libfdt) (nodes : List Nat) : Prop :=
  nodes = [] ∨
    0 ≤ fdt.sizeCells (fdt.parentOffset (Libfdt.first nodes)) ∧
    0 ≤ fdt.addressCells (fdt.parentOffset (Libfdt.first nodes)) ∧
    ∀ node ∈ nodes, (fdt.getprop (node : Nat) "reg").isSome

-- If they cannot be read, then the function returns without an end of the table.
theorem gicv2mFrames_spec (hl : fdt.Lists "arm,gic-v2m-frame" nodes) (h : c.Holds m hdr entries index) :
    (V2mReadable fdt nodes → ∃ r frames, gicReturn (gicv2mFrames fdt c) = some r ∧
      r.Returned { hdr with numMsiFrame := hdr.numMsiFrame + frames.length }
        (entries ++ tagged Gic.entryTypeGicMsiFrame frames)) ∧
    (¬V2mReadable fdt nodes → ∃ r hdr' more index', gicReturn (gicv2mFrames fdt c) = some r ∧
      r.Holds m hdr' (entries ++ more) index') := by
  rw [gicv2mFrames, hl.first]
  cases nodes
  case nil =>
    refine ⟨fun _ => ⟨c.finish, [], rfl, by simpa [tagged] using h.finish⟩, fun hn => absurd (.inl rfl) hn⟩
  case cons node nodes =>
    rw [Libfdt.first_cons]
    dsimp only
    rw [if_neg (by omega)]
    by_cases hs : fdt.sizeCells (fdt.parentOffset node) < 0
    case pos =>
      rw [if_pos hs]
      refine ⟨?_, fun _ => ⟨c, hdr, [], index, rfl, by simpa using h⟩⟩
      rintro (hn | ⟨hs', _⟩)
      · cases hn
      · exact absurd hs (not_lt.mpr hs')
    case neg =>
      rw [if_neg hs]
      by_cases ha : fdt.addressCells (fdt.parentOffset node) < 0
      case pos =>
        rw [if_pos ha]
        refine ⟨?_, fun _ => ⟨c, hdr, [], index, rfl, by simpa using h⟩⟩
        rintro (hn | ⟨_, ha', _⟩)
        · cases hn
        · exact absurd ha (not_lt.mpr ha')
      case neg =>
        have hlen := hl.length_le
        have hl' : fdt.Lists "arm,gic-v2m-frame" ([] ++ node :: nodes) := hl
        have hfirst : Libfdt.first (node :: nodes) = node := rfl
        rw [if_neg ha, ← hfirst, gicv2mLoop_eq hl' (by omega)]
        have hfold := foldlM_gicv2mNode fdt (fdt.addressCells (fdt.parentOffset node)) (fdt.sizeCells (fdt.parentOffset node))
          (node :: nodes) h
        split at hfold
        case isTrue hall =>
          have ⟨c', frames, i', hf, _, h'⟩ := hfold
          rw [Libfdt.first_cons, hf]
          refine ⟨fun _ => ⟨c'.finish, frames, rfl, h'.finish⟩, fun hn => ?_⟩
          exact absurd (.inr ⟨not_lt.mp hs, not_lt.mp ha, hall⟩) hn
        case isFalse hall =>
          have ⟨c', hdr', more, i', hf, h'⟩ := hfold
          rw [Libfdt.first_cons, hf]
          refine ⟨?_, fun _ => ⟨c', hdr', more, i', rfl, h'⟩⟩
          rintro (hn | ⟨_, _, hall'⟩)
          · cases hn
          · exact absurd hall' hall

theorem gicIts_spec (hl : fdt.Lists "arm,gic-v3-its" nodes) (h : c.Holds m hdr entries index) :
    ∃ r, gicReturn (gicIts fdt c) = some r ∧ r.Returned { hdr with numIts := hdr.numIts + nodes.length } entries := by
  rw [gicIts, hl.first]
  cases nodes
  case nil => exact ⟨c.finish, rfl, h.finish⟩
  case cons node nodes =>
    have hlen := hl.length_le
    have hl' : fdt.Lists "arm,gic-v3-its" ([] ++ node :: nodes) := hl
    have ⟨c', hc, h'⟩ := itsLoop_holds hl' (Nat.lt_succ_of_le hlen) h
    refine ⟨c'.finish, ?_, h'.finish⟩
    rw [if_neg (by rw [Libfdt.first_cons]; omega), hc]
    rfl

end

-- What is filled in from the node of the GIC.

namespace GicReg

variable (g : GicReg) (numOfRd : BitVec 32)

-- The comparison that decides on the CPU interfaces, and the one that decides on the GICH. `numOfRd` is what
-- `num_of_rd` holds there.
def CpuifTaken : Prop :=
  (BitVec.ofNat 32 g.count - numOfRd).toNat > 1

def GichTaken : Prop :=
  (BitVec.ofNat 32 g.count - (numOfRd + 1)).toInt > 1

instance : Decidable (g.CpuifTaken numOfRd) :=
  inferInstanceAs (Decidable (_ > _))

instance : Decidable (g.GichTaken numOfRd) :=
  inferInstanceAs (Decidable (_ > _))

-- The cells of an address and a length as they are read, and the `k`-th of them.
def width : Nat :=
  cellWidth g.addrCell + cellWidth g.sizeCell

def readAt (k : Nat) : Frame :=
  (readFrame g.addrCell g.sizeCell g.reg.cells (k * g.width)).1

variable {g numOfRd}

-- Where the GICH is taken, the CPU interfaces are taken before it.
theorem GichTaken.cpuifTaken (h : g.GichTaken numOfRd) : g.CpuifTaken numOfRd := by
  rw [GichTaken, ← sub_sub] at h
  rw [CpuifTaken]
  generalize BitVec.ofNat 32 g.count - numOfRd = x at h ⊢
  by_contra hx
  have hx : x = 0 ∨ x = 1 := by
    have hcases : x.toNat = 0 ∨ x.toNat = 1 := by omega
    exact hcases.imp (fun h => BitVec.eq_of_toNat_eq h) fun h => BitVec.eq_of_toNat_eq h
  rcases hx with rfl | rfl
  · exact absurd h (by decide)
  · exact absurd h (by decide)

theorem readAt_eq_frame_iff {k : Nat} : g.readAt k = g.frame k ↔ g.OneOrTwo :=
  readFrame_eq_frame_iff

end GicReg

theorem rdFrames_length {addrCell sizeCell : Int} {reg : Nat → BitVec 32} {n index : Nat} :
    (rdFrames addrCell sizeCell reg n index).length = n := by
  induction n generalizing index
  case zero      => rfl
  case succ n ih => rw [rdFrames, List.length_cons, ih]

section

variable {fdt : Libfdt} {m : Nat → GicInfo.Entry} {c : GicCursor} {g : GicReg} {frames its : List Nat} {numOfPe : Nat}
  {offset : Int} {numOfRd : BitVec 32}

-- The entries of the distributor, the redistributors and the CPU interfaces.
def gicEntries (g : GicReg) (numOfPe : Nat) (numOfRd : BitVec 32) : List (Nat × Frame) :=
  tagged Gic.entryTypeGicd [g.readAt 0] ++
    tagged Gic.entryTypeGicrGicrd (rdFrames g.addrCell g.sizeCell g.reg.cells g.numOfRd g.width) ++
    tagged Gic.entryTypeCpuif
      (if g.CpuifTaken numOfRd then List.replicate numOfPe (g.readAt (g.numOfRd + 1)) else [])

theorem holds_cpuif (numOfPe : Nat) (numOfRd : BitVec 32) {hdr : Hdr} {entries : List (Nat × Frame)} {k : Nat}
    (h : c.Holds m hdr entries (k * g.width)) :
    ∃ index, (if g.CpuifTaken numOfRd then c.fillCpuif g.addrCell g.sizeCell g.reg.cells numOfPe else c).Holds m hdr
      (entries ++ tagged Gic.entryTypeCpuif (if g.CpuifTaken numOfRd then List.replicate numOfPe (g.readAt k) else []))
      index ∧ (g.CpuifTaken numOfRd → index = (k + 1) * g.width) := by
  by_cases ht : g.CpuifTaken numOfRd
  case pos =>
    rw [if_pos ht, if_pos ht]
    exact ⟨_, h.fillCpuif numOfPe, fun _ => (Nat.succ_mul k g.width).symm⟩
  case neg =>
    rw [if_neg ht, if_neg ht]
    exact ⟨_, by simpa [tagged] using h, fun hn => absurd hn ht⟩

theorem holds_gich {hdr : Hdr} {entries : List (Nat × Frame)} {index : Nat} (h : c.Holds m hdr entries index)
    (hi : g.GichTaken numOfRd → index = 2 * g.width) :
    ∃ index', (if g.GichTaken numOfRd then c.fillGich g.addrCell g.sizeCell g.reg.cells else c).Holds m hdr
      (entries ++ tagged Gic.entryTypeGich (if g.GichTaken numOfRd then [g.readAt 2] else [])) index' := by
  by_cases ht : g.GichTaken numOfRd
  case pos =>
    rw [if_pos ht, if_pos ht]
    rw [hi ht] at h
    exact ⟨_, h.fillFrame Gic.entryTypeGich⟩
  case neg =>
    rw [if_neg ht, if_neg ht]
    exact ⟨_, by simpa [tagged] using h⟩

theorem count_eq : g.reg.len / 4 / ((g.addrCell : Int) + g.sizeCell).toNat = g.count :=
  rfl

theorem gicNode_v3 (numOfPe : Nat) (numOfRd : BitVec 32) (ht : GicTree fdt frames its) (h : c.Holds m ⟨3, 0, 0, 0, 0⟩ [] 0)
    (hn : g.numOfRd = (numOfRdRegions fdt offset).toNat) :
    ∃ r, gicReturn (gicNode fdt numOfPe numOfRd offset g.addrCell g.sizeCell g.reg c) = some r ∧
      r.Returned ⟨3, 1, g.numOfRd, its.length, 0⟩ (gicEntries g numOfPe (numOfRdRegions fdt offset)) := by
  have hgicd := h.fillGicd g.addrCell g.sizeCell g.reg.cells
  have hrd := hgicd.fillGicrd g.addrCell g.sizeCell g.reg.cells g.numOfRd
  have hi : 0 + (cellWidth g.addrCell + cellWidth g.sizeCell) +
      g.numOfRd * (cellWidth g.addrCell + cellWidth g.sizeCell) = (g.numOfRd + 1) * g.width := by
    rw [Nat.succ_mul, GicReg.width]
    omega
  rw [hi] at hrd
  have ⟨_, hcpuif, _⟩ := holds_cpuif numOfPe (numOfRdRegions fdt offset) hrd
  have ⟨r, hr, hret⟩ := gicIts_spec ht.its hcpuif
  have hv := congrArg Hdr.gicVersion hgicd.hdr
  have hv' := congrArg Hdr.gicVersion hcpuif.hdr
  refine ⟨r, ?_, ?_⟩
  · rw [← hr]
    simp only [gicNode, count_eq]
    rw [if_pos hv, ← hn, if_neg]
    · rfl
    · intro he
      exact absurd (show (3 : Nat) = 2 from hv'.symm.trans he) (by decide)
  · simpa [gicEntries, GicReg.readAt, GicReg.width] using hret

theorem gicNode_v2 (fdt : Libfdt) (numOfPe : Nat) (offset : Int) (numOfRd : BitVec 32)
    (h : c.Holds m ⟨2, 0, 0, 0, 0⟩ [] 0) (hn : g.numOfRd = 0) :
    ∃ c' index, gicNode fdt numOfPe numOfRd offset g.addrCell g.sizeCell g.reg c = gicv2mFrames fdt c' ∧
      c'.Holds m ⟨2, 1, 0, 0, 0⟩
        (gicEntries g numOfPe numOfRd ++ tagged Gic.entryTypeGich (if g.GichTaken numOfRd then [g.readAt 2] else []))
        index := by
  have hgicd := h.fillGicd g.addrCell g.sizeCell g.reg.cells
  have hi : 0 + (cellWidth g.addrCell + cellWidth g.sizeCell) = 1 * g.width := by
    rw [GicReg.width]
    omega
  rw [hi] at hgicd
  have ⟨_, hcpuif, hi'⟩ := holds_cpuif numOfPe numOfRd hgicd
  have ⟨_, hgich⟩ := holds_gich hcpuif fun ht => hi' ht.cpuifTaken
  have hv := congrArg Hdr.gicVersion hgicd.hdr
  have hv' := congrArg Hdr.gicVersion hcpuif.hdr
  refine ⟨_, _, ?_, by simpa [gicEntries, hn, rdFrames, tagged, GicReg.readAt] using hgich⟩
  simp only [gicNode, count_eq]
  rw [if_neg (fun he => absurd (show (2 : Nat) = 3 from hv.symm.trans he) (by decide)), if_pos]
  · rfl
  · exact hv'

theorem gicReg_none {version : Nat} (h : gicRegOf fdt version offset = none) :
    gicFound fdt numOfPe numOfRd offset c = .error (some c) := by
  rw [gicFound]
  rw [gicRegOf] at h
  by_cases hs : fdt.sizeCells (fdt.parentOffset offset) < 0
  case pos => rw [if_pos hs]
  case neg =>
    rw [if_neg hs]
    by_cases ha : fdt.addressCells (fdt.parentOffset offset) < 0
    case pos => rw [if_pos ha]
    case neg =>
      rw [if_neg (by omega), Option.map_eq_none_iff] at h
      rw [if_neg ha, h]

theorem gicReg_some (numOfPe : Nat) (numOfRd : BitVec 32) (c : GicCursor) {version : Nat}
    (h : gicRegOf fdt version offset = some g) :
    gicFound fdt numOfPe numOfRd offset c = gicNode fdt numOfPe numOfRd offset g.addrCell g.sizeCell g.reg c ∧
      g.version = version ∧ g.numOfRd = if version = 3 then (numOfRdRegions fdt offset).toNat else 0 := by
  rw [gicRegOf] at h
  by_cases hneg : fdt.sizeCells (fdt.parentOffset offset) < 0 ∨ fdt.addressCells (fdt.parentOffset offset) < 0
  case pos =>
    rw [if_pos hneg] at h
    cases h
  case neg =>
    rw [if_neg hneg] at h
    have ⟨reg, hreg, hg⟩ := Option.map_eq_some_iff.mp h
    cases hg
    refine ⟨?_, rfl, rfl⟩
    rw [gicFound, if_neg (by omega), if_neg (by omega), hreg, Int.toNat_of_nonneg (by omega), Int.toNat_of_nonneg (by omega)]

-- The cursor that the function starts with, behind the end mark that it sets first.
def gicStart (gicInfo : Nat → GicInfo.Entry) : GicCursor :=
  GicCursor.finish { toCursor := .start gicInfo, index := 0, taken := fun _ => ⟨0, 0, []⟩ }

theorem palGicCreateInfoTableDt_eq {gicInfo : Nat → GicInfo.Entry} :
    palGicCreateInfoTableDt fdt numOfPe numOfRd gicInfo =
      match gicSearch fdt with
      | none => some (gicStart gicInfo)
      | some (version, offset) => gicReturn (gicFound fdt numOfPe numOfRd offset
          ((gicStart gicInfo).countHdr fun h => { h with gicVersion := version })) := by
  rw [palGicCreateInfoTableDt, gicSearch]
  cases gicFind fdt gicv3DtArr
  case some offset => rfl
  case none =>
    cases gicFind fdt gicv2DtArr
    case some offset => rfl
    case none        => rfl

theorem gicStart_holds (gicInfo : Nat → GicInfo.Entry) :
    (gicStart gicInfo).Holds (gicStart gicInfo).table.gicInfo .zero [] 0 where
  hdr    := rfl
  filled := rfl
  index  := rfl
  beyond := fun _ _ => rfl

theorem gicStart_beyond (gicInfo : Nat → GicInfo.Entry) {k : Nat} (hk : k ≠ 0) :
    (gicStart gicInfo).table.gicInfo k = gicInfo k :=
  Function.update_of_ne hk ..

theorem gicStart_returned (gicInfo : Nat → GicInfo.Entry) : (gicStart gicInfo).Returned .zero [] where
  hdr    := rfl
  filled := rfl
  ended  := by simp [gicStart, GicCursor.finish, GicInfo.Cursor.finish, GicInfo.Cursor.modify, GicInfo.Cursor.start]

end

-- When the entries are right.

section

variable {fdt : Libfdt} {g : GicReg} {numOfPe : Nat} {numOfRd : BitVec 32} {hdr : Hdr}
  {gicd gicrd cpuif gich msi : List Frame}

-- The entries in the order in which they are filled in.
def parts (gicd gicrd cpuif gich msi : List Frame) : List (Nat × Frame) :=
  tagged Gic.entryTypeGicd gicd ++ tagged Gic.entryTypeGicrGicrd gicrd ++ tagged Gic.entryTypeCpuif cpuif ++
    tagged Gic.entryTypeGich gich ++ tagged Gic.entryTypeGicMsiFrame msi

theorem framesOf_parts (type : Nat) : framesOf type (parts gicd gicrd cpuif gich msi) =
    if type = Gic.entryTypeGicd then gicd
    else if type = Gic.entryTypeGicrGicrd then gicrd
    else if type = Gic.entryTypeCpuif then cpuif
    else if type = Gic.entryTypeGich then gich
    else if type = Gic.entryTypeGicMsiFrame then msi
    else [] := by
  simp only [parts, framesOf_append, framesOf_tagged]
  split_ifs <;> simp_all [Gic.entryTypeGicd, Gic.entryTypeGicrGicrd, Gic.entryTypeCpuif, Gic.entryTypeGich,
    Gic.entryTypeGicMsiFrame]

theorem filledRight_iff :
    FilledRight (some g) numOfPe hdr (parts gicd gicrd cpuif gich msi) ↔
      hdr.numGicd = gicd.length ∧ hdr.numGicrd = gicrd.length ∧ hdr.numIts = 0 ∧ hdr.numMsiFrame = msi.length ∧
      (cpuif = if g.numOfRd + 2 ≤ g.count then List.replicate numOfPe (g.frame (g.numOfRd + 1)) else []) ∧
      (g.version = 2 → gich = if 3 ≤ g.count then [g.frame 2] else []) := by
  constructor
  case mp =>
    intro h
    have hgicrd := h.numGicrd
    simp only [framesOf_parts] at hgicrd
    have hits := h.numIts
    rw [framesOf_parts] at hits
    have hc := h.cpuif g rfl
    rw [framesOf_parts] at hc
    refine ⟨?_, hgicrd, hits, ?_, hc, ?_⟩
    · rw [h.numGicd, framesOf_parts]
      rfl
    · rw [h.numMsiFrame, framesOf_parts]
      rfl
    · intro hv
      rw [← h.gich g rfl hv, framesOf_parts]
      rfl
  case mpr =>
    intro ⟨h₁, h₂, h₃, h₄, h₅, h₆⟩
    constructor
    case numGicd     => rw [h₁, framesOf_parts]; rfl
    case numGicrd    => rw [h₂, framesOf_parts, framesOf_parts]; rfl
    case numIts      => rw [h₃, framesOf_parts]; rfl
    case numMsiFrame => rw [h₄, framesOf_parts]; rfl
    case cpuif       =>
      rintro _ ⟨⟩
      rw [← h₅, framesOf_parts]
      rfl
    case gich        =>
      rintro _ ⟨⟩ hv
      rw [← h₆ hv, framesOf_parts]
      rfl

-- Of the frames that are read, some are taken or none are, whatever the number of PEs.
theorem replicate_iff {taken there : Prop} [Decidable taken] [Decidable there] {k : Nat} :
    ((if taken then List.replicate numOfPe (g.readAt k) else []) =
        if there then List.replicate numOfPe (g.frame k) else []) ↔
      numOfPe = 0 ∨ (taken ↔ there) ∧ (there → g.OneOrTwo) := by
  rw [← GicReg.readAt_eq_frame_iff (k := k)]
  by_cases ht : taken <;> by_cases hth : there <;> simp [ht, hth, List.replicate_inj]

end

-- What `num_of_rd` holds when it is subtracted: a GICv2 has not set it.
def GicReg.subtracted (g : GicReg) (numOfRd : BitVec 32) : BitVec 32 :=
  if g.version = 3 then BitVec.ofNat 32 g.numOfRd else numOfRd

-- The comparisons decide as the reg property does, what is taken has one or two cells for an address and a length,
-- all v2m frames can be read, and there is no ITS.
structure GicGood (fdt : Libfdt) (numOfPe : Nat) (numOfRd : BitVec 32) (frames its : List Nat) (g : GicReg) : Prop where
  cpuif  : numOfPe = 0 ∨ (g.CpuifTaken (g.subtracted numOfRd) ↔ g.numOfRd + 2 ≤ g.count) ∧
    (g.numOfRd + 2 ≤ g.count → g.OneOrTwo)
  gich   : g.version = 2 → (g.GichTaken numOfRd ↔ 3 ≤ g.count) ∧ (3 ≤ g.count → g.OneOrTwo)
  frames : g.version = 2 → V2mReadable fdt frames
  its    : g.version = 3 → its = []

section

variable {fdt : Libfdt} {g : GicReg} {numOfPe : Nat} {numOfRd : BitVec 32} {frames its : List Nat} {r : GicCursor}
  {hdr : Hdr} {entries : List (Nat × Frame)}

theorem GicCursor.Returned.right_iff (h : r.Returned hdr entries) :
    GicRight fdt numOfPe r ↔ FilledRight (gicReg fdt) numOfPe hdr entries := by
  rw [← h.hdr, ← h.filled]
  exact ⟨fun hr => hr.filled, fun hf => ⟨h.ended, hf⟩⟩

-- A header of zeros goes with no entries.
theorem filledRight_none (version : Nat) : FilledRight none numOfPe ⟨version, 0, 0, 0, 0⟩ [] where
  numGicd     := rfl
  numGicrd    := rfl
  numIts      := rfl
  numMsiFrame := rfl
  cpuif       := fun _ hg => nomatch hg
  gich        := fun _ hg => nomatch hg

theorem gich_iff : ((if g.GichTaken numOfRd then [g.readAt 2] else []) = if 3 ≤ g.count then [g.frame 2] else []) ↔
    (g.GichTaken numOfRd ↔ 3 ≤ g.count) ∧ (3 ≤ g.count → g.OneOrTwo) := by
  rw [← GicReg.readAt_eq_frame_iff (k := 2)]
  by_cases ht : g.GichTaken numOfRd <;> by_cases hc : 3 ≤ g.count <;> simp [ht, hc]

theorem version_of_gicSearch {version : Nat} {offset : Int} (h : gicSearch fdt = some (version, offset)) :
    version = 3 ∨ version = 2 := by
  rw [gicSearch] at h
  split at h
  · cases h
    exact .inl rfl
  · have ⟨_, _, he⟩ := Option.map_eq_some_iff.mp h
    cases he
    exact .inr rfl

-- Memory in which no entry is the end of the table.
def emptyGicInfo : Nat → GicInfo.Entry :=
  fun _ => ⟨0, 0, 0, 0, 0, 0⟩

theorem gicEntries_eq : gicEntries g numOfPe numOfRd =
    parts [g.readAt 0] (rdFrames g.addrCell g.sizeCell g.reg.cells g.numOfRd g.width)
      (if g.CpuifTaken numOfRd then List.replicate numOfPe (g.readAt (g.numOfRd + 1)) else []) [] [] := by
  simp [gicEntries, parts, tagged]

theorem right_v3_iff {offset : Int} (ht : GicTree fdt frames its) (hs : gicSearch fdt = some (3, offset))
    (hg : gicRegOf fdt 3 offset = some g) (gicInfo : Nat → GicInfo.Entry) :
    (∃ r, palGicCreateInfoTableDt fdt numOfPe numOfRd gicInfo = some r ∧ GicRight fdt numOfPe r) ↔
      GicGood fdt numOfPe numOfRd frames its g := by
  have hreg : gicReg fdt = some g := by
    rw [gicReg, hs]
    exact hg
  have ⟨hfound, hv, hn⟩ := gicReg_some numOfPe numOfRd
    ((gicStart gicInfo).countHdr fun h => { h with gicVersion := 3 }) hg
  rw [if_pos rfl] at hn
  have hstart := (gicStart_holds gicInfo).countHdr fun h => { h with gicVersion := 3 }
  have ⟨r, hr, hret⟩ := gicNode_v3 numOfPe numOfRd ht hstart hn
  have hpal : palGicCreateInfoTableDt fdt numOfPe numOfRd gicInfo = some r := by
    rw [palGicCreateInfoTableDt_eq, hs]
    dsimp only
    rw [hfound, hr]
  have hsub : g.subtracted numOfRd = numOfRdRegions fdt offset := by
    rw [GicReg.subtracted, if_pos hv, hn, BitVec.ofNat_toNat, BitVec.setWidth_eq]
  have hright : GicRight fdt numOfPe r ↔ its.length = 0 ∧ (numOfPe = 0 ∨
      (g.CpuifTaken (numOfRdRegions fdt offset) ↔ g.numOfRd + 2 ≤ g.count) ∧ (g.numOfRd + 2 ≤ g.count → g.OneOrTwo)) := by
    rw [hret.right_iff, hreg, gicEntries_eq, filledRight_iff, replicate_iff]
    simp [rdFrames_length, hv]
  rw [hpal]
  simp only [Option.some.injEq, exists_eq_left', hright]
  constructor
  case mp =>
    intro ⟨hi, hc⟩
    constructor
    case cpuif  => rwa [hsub]
    case its    => exact fun _ => List.length_eq_zero_iff.mp hi
    case gich   => exact fun hv' => absurd (hv.symm.trans hv') (by decide)
    case frames => exact fun hv' => absurd (hv.symm.trans hv') (by decide)
  case mpr =>
    intro hgood
    have hc := hgood.cpuif
    rw [hsub] at hc
    exact ⟨List.length_eq_zero_iff.mpr (hgood.its hv), hc⟩

-- What a GICv2 has filled in when its v2m frames are looked for.
theorem palGic_v2 (numOfPe : Nat) (numOfRd : BitVec 32) {offset : Int} (hs : gicSearch fdt = some (2, offset))
    (hg : gicRegOf fdt 2 offset = some g) (gicInfo : Nat → GicInfo.Entry) : ∃ c index,
      palGicCreateInfoTableDt fdt numOfPe numOfRd gicInfo = gicReturn (gicv2mFrames fdt c) ∧
      c.Holds (gicStart gicInfo).table.gicInfo ⟨2, 1, 0, 0, 0⟩
        (gicEntries g numOfPe numOfRd ++ tagged Gic.entryTypeGich (if g.GichTaken numOfRd then [g.readAt 2] else []))
        index := by
  have ⟨hfound, _, hn⟩ := gicReg_some numOfPe numOfRd
    ((gicStart gicInfo).countHdr fun h => { h with gicVersion := 2 }) hg
  have hstart := (gicStart_holds gicInfo).countHdr fun h => { h with gicVersion := 2 }
  have ⟨c, index, hnode, hc⟩ := gicNode_v2 fdt numOfPe offset numOfRd hstart hn
  refine ⟨c, index, ?_, hc⟩
  rw [palGicCreateInfoTableDt_eq, hs]
  dsimp only
  rw [hfound, hnode]

theorem right_v2_of_readable {offset : Int} (ht : GicTree fdt frames its) (hs : gicSearch fdt = some (2, offset))
    (hg : gicRegOf fdt 2 offset = some g) (hread : V2mReadable fdt frames) (gicInfo : Nat → GicInfo.Entry) :
    (∃ r, palGicCreateInfoTableDt fdt numOfPe numOfRd gicInfo = some r ∧ GicRight fdt numOfPe r) ↔
      GicGood fdt numOfPe numOfRd frames its g := by
  have hreg : gicReg fdt = some g := by
    rw [gicReg, hs]
    exact hg
  have ⟨_, hv, hn⟩ := gicReg_some numOfPe numOfRd (gicStart emptyGicInfo) hg
  rw [if_neg (by decide)] at hn
  have hsub : g.subtracted numOfRd = numOfRd := by
    rw [GicReg.subtracted, if_neg (by rw [hv]; decide)]
  have ⟨c, index, hpal, hc⟩ := palGic_v2 numOfPe numOfRd hs hg gicInfo
  have ⟨r, more, hr, hret⟩ := (gicv2mFrames_spec ht.frames hc).left hread
  rw [hpal, hr]
  simp only [Option.some.injEq, exists_eq_left']
  have hparts : gicEntries g numOfPe numOfRd ++
      tagged Gic.entryTypeGich (if g.GichTaken numOfRd then [g.readAt 2] else []) ++
        tagged Gic.entryTypeGicMsiFrame more = parts [g.readAt 0] []
          (if g.CpuifTaken numOfRd then List.replicate numOfPe (g.readAt (g.numOfRd + 1)) else [])
          (if g.GichTaken numOfRd then [g.readAt 2] else []) more := by
    simp [gicEntries_eq, parts, tagged, hn, rdFrames]
  rw [hret.right_iff, hreg, hparts, filledRight_iff, replicate_iff, gich_iff]
  simp only [List.length_singleton, List.length_nil, Nat.zero_add, true_and, hv, forall_const]
  constructor
  case mp =>
    intro ⟨hcpuif, hgich⟩
    constructor
    case cpuif  => rwa [hsub]
    case gich   => exact fun _ => hgich
    case frames => exact fun _ => hread
    case its    => exact fun hv' => absurd (hv.symm.trans hv') (by decide)
  case mpr =>
    intro hgood
    have hcpuif := hgood.cpuif
    rw [hsub] at hcpuif
    exact ⟨hcpuif, hgood.gich hv⟩

theorem right_v2_iff {offset : Int} (ht : GicTree fdt frames its) (hs : gicSearch fdt = some (2, offset))
    (hg : gicRegOf fdt 2 offset = some g) :
    (∀ gicInfo, ∃ r, palGicCreateInfoTableDt fdt numOfPe numOfRd gicInfo = some r ∧ GicRight fdt numOfPe r) ↔
      GicGood fdt numOfPe numOfRd frames its g := by
  by_cases hread : V2mReadable fdt frames
  case pos =>
    constructor
    case mp  => exact fun h => (right_v2_of_readable ht hs hg hread emptyGicInfo).mp (h _)
    case mpr => exact fun h gicInfo => (right_v2_of_readable ht hs hg hread gicInfo).mpr h
  case neg =>
    have ⟨_, hv, _⟩ := gicReg_some numOfPe numOfRd (gicStart emptyGicInfo) hg
    refine iff_of_false ?_ fun hgood => hread (hgood.frames hv)
    intro h
    -- A table of zeros does not end by itself.
    have ⟨c, index, hpal, hc⟩ := palGic_v2 numOfPe numOfRd hs hg emptyGicInfo
    have ⟨r, hdr', more, i', hr, hret⟩ := (gicv2mFrames_spec ht.frames hc).right hread
    have ⟨r', hr', hright⟩ := h emptyGicInfo
    rw [hpal, hr] at hr'
    cases hr'
    have hended := hright.ended
    rw [hret.beyond _ le_rfl, gicStart_beyond] at hended
    · exact absurd (show (0 : Nat) = 0xFF from hended) (by decide)
    · rw [hret.gicEntry, gicEntries]
      simp [tagged]

theorem gic_table_iff (ht : GicTree fdt frames its) (numOfPe : Nat) (numOfRd : BitVec 32) :
    (∀ gicInfo, ∃ r, palGicCreateInfoTableDt fdt numOfPe numOfRd gicInfo = some r ∧ GicRight fdt numOfPe r) ↔
      ∀ g ∈ gicReg fdt, GicGood fdt numOfPe numOfRd frames its g := by
  have hnone (hreg : gicReg fdt = none) (version : Nat) (gicInfo : Nat → GicInfo.Entry) : GicRight fdt numOfPe
      ((gicStart gicInfo).countHdr fun h => { h with gicVersion := version }) := by
    have hret : ((gicStart gicInfo).countHdr fun h => { h with gicVersion := version }).Returned ⟨version, 0, 0, 0, 0⟩ [] :=
      ⟨rfl, rfl, (gicStart_returned gicInfo).ended⟩
    rw [hret.right_iff, hreg]
    exact filledRight_none version
  cases hs : gicSearch fdt
  case none =>
    have hreg : gicReg fdt = none := by rw [gicReg, hs]; rfl
    rw [hreg]
    refine iff_of_true (fun gicInfo => ⟨gicStart gicInfo, ?_, hnone hreg 0 gicInfo⟩) fun _ hg => nomatch hg
    rw [palGicCreateInfoTableDt_eq, hs]
  case some found =>
    have ⟨version, offset⟩ := found
    cases hg : gicRegOf fdt version offset
    case none =>
      have hreg : gicReg fdt = none := by rw [gicReg, hs]; exact hg
      rw [hreg]
      refine iff_of_true (fun gicInfo => ⟨_, ?_, hnone hreg version gicInfo⟩) fun _ hg => nomatch hg
      rw [palGicCreateInfoTableDt_eq, hs]
      dsimp only
      rw [gicReg_none hg]
      rfl
    case some g =>
      have hreg : gicReg fdt = some g := by rw [gicReg, hs]; exact hg
      rw [hreg]
      simp only [Option.mem_def, Option.some.injEq, forall_eq']
      rcases version_of_gicSearch hs with rfl | rfl
      · constructor
        case mp  => exact fun h => (right_v3_iff ht hs hg emptyGicInfo).mp (h _)
        case mpr => exact fun hgood gicInfo => (right_v3_iff ht hs hg gicInfo).mpr hgood
      · exact right_v2_iff ht hs hg

end

-- A GIC at 64, its v2m frames and its ITS nodes, below a node with two words for an address and for a size. The
-- `k`-th frame of its reg property is at `k + 1` times 0x10000.
def gicTree (compatible : String) (words : Nat) (frames its : List Nat) : Libfdt where
  totalsize              := 1024
  nodeOffsetByCompatible := fun start name =>
    if name = compatible then Libfdt.search [64] start
    else if name = "arm,gic-v2m-frame" then Libfdt.search frames start
    else if name = "arm,gic-v3-its" then Libfdt.search its start
    else -fdtErrNotfound
  nodeOffsetByPhandle    := fun _ => -fdtErrNotfound
  parentOffset           := fun nodeoffset => if nodeoffset = 0 then -fdtErrNotfound else 0
  subnodeOffset          := fun _ _ => -fdtErrNotfound
  nextSubnode            := fun _ => -fdtErrNotfound
  sizeCells              := fun _ => 2
  addressCells           := fun _ => 2
  getprop                := fun nodeoffset name =>
    if nodeoffset = 64 ∧ name = "reg" then
      some ⟨4 * words, fun i => [0, BitVec.ofNat 32 (0x10000 * (i / 4 + 1)), 0, 0x10000].getD (i % 4) 0⟩
    else none

theorem gicTree_tree {compatible : String} {words : Nat} {frames its : List Nat}
    (hc : compatible ≠ "arm,gic-v2m-frame" ∧ compatible ≠ "arm,gic-v3-its") (hf : frames.Pairwise (· < ·))
    (hi : its.Pairwise (· < ·)) (hf' : ∀ node ∈ frames, node < 1024) (hi' : ∀ node ∈ its, node < 1024) :
    GicTree (gicTree compatible words frames its) frames its where
  frames := ⟨hf, hf', fun _ _ => by simp [gicTree, hc.1.symm]⟩
  its    := ⟨hi, hi', fun _ _ => by simp [gicTree, hc.2.symm]⟩

-- A GICv3 with one region of redistributors and a CPU interface, for four PEs.
theorem gic_table_v3 : ∃ r, palGicCreateInfoTableDt (gicTree "arm,gic-v3" 12 [] []) 4 7 emptyGicInfo = some r ∧
    GicRight (gicTree "arm,gic-v3" 12 [] []) 4 r := by
  have ht : GicTree (gicTree "arm,gic-v3" 12 [] []) [] [] :=
    gicTree_tree (by decide) List.Pairwise.nil List.Pairwise.nil (by decide) (by decide)
  apply (gic_table_iff ht 4 7).mpr
  rintro _ ⟨⟩
  constructor
  case cpuif  => exact .inr ⟨by decide, fun _ => ⟨.inr rfl, .inr rfl⟩⟩
  case gich   => exact fun hv => absurd hv (by decide)
  case frames => exact fun hv => absurd hv (by decide)
  case its    => exact fun _ => rfl

-- An ITS that is counted but has no entry; a GICv2 for which `num_of_rd` holds 4, so that its CPU interface is left
-- out; and a GICv2 with a v2m frame without addresses, after which the table has no end.
theorem gic_table_wrong :
    GicTree (gicTree "arm,gic-v3" 12 [] [256]) [] [256] ∧
    (¬∀ gicInfo, ∃ r, palGicCreateInfoTableDt (gicTree "arm,gic-v3" 12 [] [256]) 4 7 gicInfo = some r ∧
      GicRight (gicTree "arm,gic-v3" 12 [] [256]) 4 r) ∧
    GicTree (gicTree "arm,gic-400" 16 [] []) [] [] ∧
    (¬∀ gicInfo, ∃ r, palGicCreateInfoTableDt (gicTree "arm,gic-400" 16 [] []) 4 4 gicInfo = some r ∧
      GicRight (gicTree "arm,gic-400" 16 [] []) 4 r) ∧
    GicTree (gicTree "arm,gic-400" 16 [256] []) [256] [] ∧
    ¬∀ gicInfo, ∃ r, palGicCreateInfoTableDt (gicTree "arm,gic-400" 16 [256] []) 4 0 gicInfo = some r ∧
      GicRight (gicTree "arm,gic-400" 16 [256] []) 4 r := by
  have hits : GicTree (gicTree "arm,gic-v3" 12 [] [256]) [] [256] :=
    gicTree_tree (by decide) (by decide) (by decide) (by decide) (by decide)
  have hv2 : GicTree (gicTree "arm,gic-400" 16 [] []) [] [] :=
    gicTree_tree (by decide) (by decide) (by decide) (by decide) (by decide)
  have hv2m : GicTree (gicTree "arm,gic-400" 16 [256] []) [256] [] :=
    gicTree_tree (by decide) (by decide) (by decide) (by decide) (by decide)
  refine ⟨hits, ?_, hv2, ?_, hv2m, ?_⟩
  · intro h
    have hgood := (right_v3_iff hits rfl rfl emptyGicInfo).mp (h emptyGicInfo)
    exact absurd (hgood.its rfl) (by decide)
  · intro h
    have hgood := (right_v2_iff hv2 rfl rfl).mp h
    rcases hgood.cpuif with hz | ⟨hc, _⟩
    · exact absurd hz (by decide)
    · exact absurd (hc.mpr (by decide)) (by decide)
  · intro h
    have hgood := (right_v2_iff hv2m rfl rfl).mp h
    rcases hgood.frames rfl with hn | ⟨_, _, hall⟩
    · exact absurd hn (by decide)
    · exact absurd (hall 256 (List.mem_singleton_self _)) (by decide)

end Dt
