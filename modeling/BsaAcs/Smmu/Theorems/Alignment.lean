import BsaAcs.Smmu.Theorems.Frames

-- The tables of the driver are aligned to their size within blocks of twice that size.

namespace Smmu

-- The physical and the virtual base of a table denote the same `size` bytes of its block.
structure Denotes (live : List (Nat × Nat)) (ptr phys virt size : Nat) : Prop where
  same    : phys = virt
  aligned : size ∣ virt
  own     : ∃ n, (ptr, n) ∈ live ∧ InBlock ptr n virt size

-- The sizes of the tables are those that the SMMU finds in its registers and descriptors.

def QueueDenoted (smmu : SmmuDev) : Prop :=
  ∀ pf w, pf.Addressable →
    let r := smmuCmdQueueInit pf smmu w
    let cmdq := r.2.1.cmdq
    r.1 = true → Denotes r.2.2.heap.live cmdq.basePtr cmdq.basePhys cmdq.base
      (max 32 (2 ^ smmu.cmdq.queue.log2nent * 16))

def LinearDenoted (smmu : SmmuDev) : Prop :=
  ∀ pf w, pf.Addressable →
    let r := smmuStrtabInitLinear pf smmu w
    let cfg := r.2.1.strtabCfg
    r.1 = true → Denotes r.2.2.heap.live cfg.strtabPtr cfg.strtabPhys cfg.strtab64 (2 ^ smmu.sidBits * 64)

def Level1Denoted (smmu : SmmuDev) : Prop :=
  ∀ pf w, pf.Addressable →
    let r := smmuStrtabInit2level pf smmu w
    let cfg := r.2.1.strtabCfg
    r.1 = true → Denotes r.2.2.heap.live cfg.strtabPtr cfg.strtabPhys cfg.strtab64 (2 ^ (smmu.sidBits - 8) * 8)

-- A level-2 table is allocated if there is none yet.
def Level2Denoted (smmu : SmmuDev) : Prop :=
  ∀ pf w sid, pf.Addressable → (smmu.strtabCfg.l1Desc (sid >>> strtabSplit)).l2ptr = 0 →
    let r := smmuStrtabInitLevel2 pf smmu sid w
    let desc := r.2.1.strtabCfg.l1Desc (sid >>> strtabSplit)
    r.1 = true → Denotes r.2.2.heap.live desc.l2ptr desc.l2descPhys desc.l2desc64 (2 ^ strtabSplit * 64)

-- The first level of a table of context descriptors, or all of it.
def ContextDenoted (cd2l : Bool) (s1cdmax : Nat) : Prop :=
  ∀ pf w (cfg : Stage1Config), pf.Addressable → cfg.s1cdmax = s1cdmax →
    let r := smmuCdtabAlloc pf cd2l cfg w
    let cdcfg := r.2.1.cdcfg
    r.1 = true → Denotes r.2.2.heap.live cdcfg.cdtabPtr cdcfg.cdtabPhys cdcfg.cdtab64
      (if twoLevel cd2l s1cdmax then 2 ^ (s1cdmax % 32 - 10) * 8 else 2 ^ (s1cdmax % 32) * 64)

def LeafDenoted : Prop :=
  ∀ pf w desc, pf.Addressable →
    let r := smmuCdtabAllocLeafTable pf w
    r.1 = some desc → Denotes r.2.heap.live desc.l2ptr desc.l2descPhys desc.l2desc64 (2 ^ 10 * 64)

def TablesDenoted (smmu : SmmuDev) (cd2l : Bool) (s1cdmax : Nat) : Prop :=
  QueueDenoted smmu ∧ (if smmu.supported.stLevel2lvl then Level1Denoted smmu else LinearDenoted smmu) ∧
    Level2Denoted smmu ∧ ContextDenoted cd2l s1cdmax ∧ LeafDenoted

-- Twice the size of each table fits into 32 bits.
def TablesFit (smmu : SmmuDev) (cd2l : Bool) (s1cdmax : Nat) : Prop :=
  smmu.cmdq.queue.log2nent ≤ 26 ∧ (if smmu.supported.stLevel2lvl then smmu.sidBits ≤ 35 else smmu.sidBits ≤ 24) ∧
    CdFits cd2l s1cdmax

-- A table of `size` bytes in the block that a request has been answered with.
structure Allocated (pf : Platform) (w w' : World) (request size ptr phys virt : Nat) : Prop where
  block : ptr = (w.valMemoryAlloc pf request).1
  phys  : phys = alignToSize ptr size
  virt  : virt = alignToSize ptr size
  live  : (ptr, request % 2 ^ 32) ∈ w'.heap.live

section

variable {pf : Platform} {smmu : SmmuDev} {w w' : World} {live : List (Nat × Nat)}
variable {ptr phys virt request size n k : Nat}

theorem World.alloc_live (hp : (w.valMemoryAlloc pf n).1 ≠ 0) :
    (w.valMemoryAlloc pf n).2.heap.live = ((w.valMemoryAlloc pf n).1, n % 2 ^ 32) :: w.heap.live := by
  simp only [World.valMemoryAlloc, Heap.alloc] at hp ⊢
  rw [if_neg hp]

theorem Allocated.denotes (h : Allocated pf w w' request size ptr phys virt) (ha : pf.Addressable)
    (hs : size = 2 ^ k) (hr : request % 2 ^ 32 = 2 * 2 ^ k) (hk : 2 * 2 ^ k < 2 ^ 32) :
    Denotes w'.heap.live ptr phys virt (2 ^ k) := by
  have hb : ptr + 2 * 2 ^ k ≤ 2 ^ 64 := by
    rw [h.block, World.valMemoryAlloc, hr]
    exact ha _ _ _ hk
  refine ⟨h.phys.trans h.virt.symm, ?_, request % 2 ^ 32, h.live, ?_⟩
  · rw [h.virt, hs, alignToSize_eq hb]
    exact Nat.dvd_mul_left ..
  · rw [hr, h.virt, hs]
    exact inBlock_aligned hb (show 0 + 2 ^ k ≤ 2 ^ k by omega)

-- A block that is smaller than the table does not hold it.
theorem Denotes.size_le (h : Denotes live ptr phys virt size) (hu : ∀ m, (ptr, m) ∈ live → m = n) : size ≤ n := by
  have ⟨m, hm, h₁, h₂⟩ := h.own
  rw [hu m hm] at h₂
  omega

theorem unique_size (hl : live = [(ptr, n)]) (m : Nat) (hm : (ptr, m) ∈ live) : m = n := by
  rw [hl, List.mem_singleton] at hm
  exact (Prod.mk.inj hm).2

theorem unique_size_cons {b : Nat × Nat} (hl : live = [b, (ptr, n)]) (hb : b.1 ≠ ptr) (m : Nat)
    (hm : (ptr, m) ∈ live) : m = n := by
  rw [hl, List.mem_cons] at hm
  rcases hm with hm | hm
  case inl => exact absurd (congrArg Prod.fst hm).symm hb
  case inr => exact unique_size rfl m hm

-- An allocator whose first two blocks are far apart.
def spreading : Platform where
  mmio  := fun _ => 0
  alloc := fun n _ _ => (n % 2 + 1) * 2 ^ 40 + 2 ^ 24

theorem spreading_addressable : spreading.Addressable := by
  intro n live size hs
  have := Nat.mod_lt n (show 0 < 2 by decide)
  simp only [spreading]
  omega

theorem spreading_ne_zero (w : World) (n : Nat) : (w.valMemoryAlloc spreading n).1 ≠ 0 := by
  simp only [World.valMemoryAlloc, Heap.alloc, spreading]
  omega

theorem spreading_first : (World.start.valMemoryAlloc spreading n).1 = 2 ^ 40 + 2 ^ 24 := by
  simp [World.valMemoryAlloc, Heap.alloc, spreading, World.start]

theorem spreading_second :
    ((World.start.valMemoryAlloc spreading n).2.valMemoryAlloc spreading k).1 = 2 ^ 41 + 2 ^ 24 := by
  simp [World.valMemoryAlloc, Heap.alloc, spreading, World.start]

-- The command queue.

theorem cmdQueueInit_of_alloc (hp : (w.valMemoryAlloc pf (2 * cmdqSize smmu % 2 ^ 64)).1 ≠ 0) :
    let r := smmuCmdQueueInit pf smmu w
    let cmdq := r.2.1.cmdq
    r.1 = true ∧
      Allocated pf w r.2.2 (2 * cmdqSize smmu % 2 ^ 64) (cmdqSize smmu) cmdq.basePtr cmdq.basePhys cmdq.base ∧
      r.2.2.heap.live = (cmdq.basePtr, 2 * cmdqSize smmu % 2 ^ 64 % 2 ^ 32) :: w.heap.live := by
  have hl := World.alloc_live hp
  simp only [smmuCmdQueueInit, if_neg hp]
  exact ⟨trivial, ⟨rfl, rfl, rfl, hl ▸ List.mem_cons_self ..⟩, hl⟩

theorem queueDenoted_iff : QueueDenoted smmu ↔ smmu.cmdq.queue.log2nent ≤ 26 := by
  constructor
  case mp =>
    intro h
    obtain ⟨hok, _, hl⟩ := cmdQueueInit_of_alloc (spreading_ne_zero .start (2 * cmdqSize smmu % 2 ^ 64))
    have hle := (h spreading .start spreading_addressable hok).size_le (unique_size hl)
    by_contra hc
    have hp : 2 ^ 27 ≤ 2 ^ smmu.cmdq.queue.log2nent := Nat.pow_le_pow_right two_pos (by omega)
    rcases Nat.lt_or_ge 27 smmu.cmdq.queue.log2nent with hlt | hge
    case inl =>
      have hp : 2 ^ 28 ≤ 2 ^ smmu.cmdq.queue.log2nent := Nat.pow_le_pow_right two_pos hlt
      omega
    case inr =>
      have he : smmu.cmdq.queue.log2nent = 27 := by omega
      have hz : cmdqSize smmu = 2 ^ 64 - 2 ^ 31 := by
        rw [cmdqSize, he]
        decide
      omega
  case mpr =>
    intro h pf w ha r cmdq hok
    have hk : 2 * 2 ^ queueLog smmu < 2 ^ 32 := by
      have : 2 ^ queueLog smmu ≤ 2 ^ 30 := Nat.pow_le_pow_right two_pos (by rw [queueLog]; omega)
      omega
    have hp : (w.valMemoryAlloc pf (2 * cmdqSize smmu % 2 ^ 64)).1 ≠ 0 := by
      intro hz
      simp only [r, smmuCmdQueueInit, if_pos hz] at hok
      cases hok
    obtain ⟨_, hd, _⟩ := cmdQueueInit_of_alloc hp
    rw [← two_pow_queueLog]
    refine hd.denotes ha (cmdqSize_eq h) ?_ hk
    rw [cmdqSize_eq h]
    omega

-- The stream table.

theorem strtabInitLinear_of_alloc (hp : (w.valMemoryAlloc pf (2 * linearSize smmu % 2 ^ 32)).1 ≠ 0) :
    let r := smmuStrtabInitLinear pf smmu w
    let cfg := r.2.1.strtabCfg
    r.1 = true ∧
      Allocated pf w r.2.2 (2 * linearSize smmu % 2 ^ 32) (linearSize smmu) cfg.strtabPtr cfg.strtabPhys cfg.strtab64 ∧
      r.2.2.heap.live = (cfg.strtabPtr, 2 * linearSize smmu % 2 ^ 32 % 2 ^ 32) :: w.heap.live := by
  have hl := World.alloc_live hp
  simp only [smmuStrtabInitLinear, if_neg hp, abortStes_same.live, World.memorySet_same.live]
  exact ⟨trivial, ⟨rfl, rfl, rfl, by
    rw [abortStes_same.live, World.memorySet_same.live, hl]
    exact List.mem_cons_self ..⟩, hl⟩

theorem linearDenoted_iff : LinearDenoted smmu ↔ smmu.sidBits ≤ 24 := by
  constructor
  case mp =>
    intro h
    obtain ⟨hok, _, hl⟩ := strtabInitLinear_of_alloc (spreading_ne_zero .start (2 * linearSize smmu % 2 ^ 32))
    have hle := (h spreading .start spreading_addressable hok).size_le (unique_size hl)
    by_contra hc
    have hp : 2 ^ 25 ≤ 2 ^ smmu.sidBits := Nat.pow_le_pow_right two_pos (by omega)
    rcases Nat.lt_or_ge 25 smmu.sidBits with hlt | hge
    case inl =>
      have hp : 2 ^ 26 ≤ 2 ^ smmu.sidBits := Nat.pow_le_pow_right two_pos hlt
      omega
    case inr =>
      have he : smmu.sidBits = 25 := by omega
      have hz : linearSize smmu = 2 ^ 31 := by
        rw [linearSize, he]
        decide
      omega
  case mpr =>
    intro h pf w ha r cfg hok
    have hk : 2 ^ (smmu.sidBits + 6) ≤ 2 ^ 30 := Nat.pow_le_pow_right two_pos (by omega)
    have hp : (w.valMemoryAlloc pf (2 * linearSize smmu % 2 ^ 32)).1 ≠ 0 := by
      intro hz
      simp only [r, smmuStrtabInitLinear, if_pos hz] at hok
      cases hok
    obtain ⟨_, hd, _⟩ := strtabInitLinear_of_alloc hp
    have hs : 2 ^ smmu.sidBits * 2 ^ 6 = 2 ^ (smmu.sidBits + 6) := (Nat.pow_add ..).symm
    refine hs ▸ hd.denotes ha (linearSize_eq h) ?_ (by omega)
    rw [linearSize_eq h]
    omega

theorem initLevel1_of_alloc
    (hp : (w.valMemoryAlloc pf (sizeofStrtabL1Desc * smmu.strtabCfg.l1EntCount)).1 ≠ 0) :
    smmuStrtabInitLevel1 pf smmu w =
      (true, smmu.setStrtab { smmu.strtabCfg with
          l1Ptr  := (w.valMemoryAlloc pf (sizeofStrtabL1Desc * smmu.strtabCfg.l1EntCount)).1
          l1Desc := fun _ => .zero },
        emptyL1 smmu.strtabCfg.strtab64 smmu.strtabCfg.l1EntCount
          (w.valMemoryAlloc pf (sizeofStrtabL1Desc * smmu.strtabCfg.l1EntCount)).2) :=
  if_neg hp

theorem strtabInit2level_of_alloc (hp : (w.valMemoryAlloc pf (2 * l1TblSize smmu % 2 ^ 32)).1 ≠ 0)
    (hq : ((w.valMemoryAlloc pf (2 * l1TblSize smmu % 2 ^ 32)).2.valMemoryAlloc pf
      (sizeofStrtabL1Desc * shl1 (smmu.sidBits - strtabSplit))).1 ≠ 0) :
    let r := smmuStrtabInit2level pf smmu w
    let cfg := r.2.1.strtabCfg
    r.1 = true ∧
      Allocated pf w r.2.2 (2 * l1TblSize smmu % 2 ^ 32) (l1TblSize smmu) cfg.strtabPtr cfg.strtabPhys cfg.strtab64 ∧
      r.2.2.heap.live = (((w.valMemoryAlloc pf (2 * l1TblSize smmu % 2 ^ 32)).2.valMemoryAlloc pf
          (sizeofStrtabL1Desc * shl1 (smmu.sidBits - strtabSplit))).1,
        sizeofStrtabL1Desc * shl1 (smmu.sidBits - strtabSplit) % 2 ^ 32) ::
          (cfg.strtabPtr, 2 * l1TblSize smmu % 2 ^ 32 % 2 ^ 32) :: w.heap.live := by
  have hl := World.alloc_live hq
  rw [World.alloc_live hp] at hl
  have hmem := hl ▸ List.mem_cons_of_mem _ (List.mem_cons_self ..)
  simp only [smmuStrtabInit2level, if_neg hp]
  rw [initLevel1_of_alloc hq]
  exact ⟨rfl, ⟨rfl, rfl, rfl, emptyL1_same.mem_live _ hmem⟩, emptyL1_same.live.trans hl⟩

theorem l1TblSize_of_le (h : smmu.sidBits ≤ 35) : l1TblSize smmu = 2 ^ (smmu.sidBits - 8 + 3) := by
  have hp : 2 ^ (smmu.sidBits - 8) ≤ 2 ^ 27 := Nat.pow_le_pow_right two_pos (by omega)
  rw [l1TblSize, strtabSplit, strtabL1DescSize, shl1_eq (by omega), Nat.mod_eq_of_lt (by omega), Nat.pow_add]

theorem level1Denoted_iff : Level1Denoted smmu ↔ smmu.sidBits ≤ 35 := by
  constructor
  case mp =>
    intro h
    obtain ⟨hok, hd, hl⟩ := strtabInit2level_of_alloc
      (spreading_ne_zero .start (2 * l1TblSize smmu % 2 ^ 32)) (spreading_ne_zero _ _)
    have hptr := hd.block
    rw [spreading_first] at hptr
    rw [spreading_second] at hl
    have hne : 2 ^ 41 + 2 ^ 24 ≠ (smmuStrtabInit2level spreading smmu .start).2.1.strtabCfg.strtabPtr := by
      rw [hptr]
      decide
    have hle := (h spreading .start spreading_addressable hok).size_le (unique_size_cons hl hne)
    by_contra hc
    have hp : 2 ^ 28 ≤ 2 ^ (smmu.sidBits - 8) := Nat.pow_le_pow_right two_pos (by omega)
    rcases Nat.lt_or_ge 36 smmu.sidBits with hlt | hge
    case inl =>
      have hp : 2 ^ 29 ≤ 2 ^ (smmu.sidBits - 8) := Nat.pow_le_pow_right two_pos (by omega)
      omega
    case inr =>
      have he : smmu.sidBits = 36 := by omega
      have hz : l1TblSize smmu = 2 ^ 31 := by
        rw [l1TblSize, he]
        decide
      omega
  case mpr =>
    intro h pf w ha r cfg hok
    have hk : 2 ^ (smmu.sidBits - 8 + 3) ≤ 2 ^ 30 := Nat.pow_le_pow_right two_pos (by omega)
    have hp : (w.valMemoryAlloc pf (2 * l1TblSize smmu % 2 ^ 32)).1 ≠ 0 := by
      intro hz
      simp only [r, smmuStrtabInit2level, if_pos hz] at hok
      cases hok
    have hq : ((w.valMemoryAlloc pf (2 * l1TblSize smmu % 2 ^ 32)).2.valMemoryAlloc pf
        (sizeofStrtabL1Desc * shl1 (smmu.sidBits - strtabSplit))).1 ≠ 0 := by
      intro hz
      simp only [r, smmuStrtabInit2level, if_neg hp] at hok
      split at hok
      case h_1 => cases hok
      case h_2 he => cases (if_pos hz).symm.trans he
    obtain ⟨_, hd, _⟩ := strtabInit2level_of_alloc hp hq
    have hs : 2 ^ (smmu.sidBits - 8) * 2 ^ 3 = 2 ^ (smmu.sidBits - 8 + 3) := (Nat.pow_add ..).symm
    refine hs ▸ hd.denotes ha (l1TblSize_of_le h) ?_ (by omega)
    rw [l1TblSize_of_le h]
    omega

-- The level-2 tables and the leaves have a fixed size.

theorem level2Denoted : Level2Denoted smmu := by
  intro pf w sid ha hz r desc hok
  have hsize : (1 <<< strtabSplit) * strtabSteDwords * bytesPerDword = 2 ^ 14 := rfl
  have hd : Allocated pf w r.2.2 (2 ^ 14 * 2) (2 ^ 14) desc.l2ptr desc.l2descPhys desc.l2desc64 := by
    simp only [r, desc, smmuStrtabInitLevel2, not_not.mpr hz, if_false, hsize] at hok ⊢
    split at hok
    case isTrue => cases hok
    case isFalse hp =>
      have hm : ((w.valMemoryAlloc pf (2 ^ 14 * 2)).1, 2 ^ 14 * 2 % 2 ^ 32) ∈
          (w.valMemoryAlloc pf (2 ^ 14 * 2)).2.heap.live := World.alloc_live hp ▸ List.mem_cons_self ..
      simp only [if_neg hp, SmmuDev.setL1Desc, SmmuDev.setStrtab, if_true]
      refine ⟨rfl, rfl, rfl, World.store_same.mem_live _ ?_⟩
      exact abortStes_same.mem_live _ (World.memorySet_same.mem_live _ hm)
  exact hd.denotes ha rfl rfl (by decide)

theorem leafDenoted : LeafDenoted := by
  intro pf w desc ha r hok
  have hsize : cdtabL2EntryCount * (cdtabCdDwords <<< 3) = 2 ^ 16 := rfl
  have hd : Allocated pf w r.2 (2 ^ 16 * 2) (2 ^ 16) desc.l2ptr desc.l2descPhys desc.l2desc64 := by
    simp only [r, smmuCdtabAllocLeafTable, hsize] at hok ⊢
    split at hok
    case isTrue => cases hok
    case isFalse hp =>
      cases hok
      simp only [if_neg hp]
      exact ⟨rfl, rfl, rfl, World.alloc_live hp ▸ List.mem_cons_self ..⟩
  exact hd.denotes ha rfl rfl (by decide)

-- The tables of context descriptors.

theorem cdtabAllocTable_of_alloc (cfg : Stage1Config) (hp : (w.valMemoryAlloc pf (size * 2)).1 ≠ 0) :
    let r := cdtabAllocTable pf size cfg w
    let cdcfg := r.2.1.cdcfg
    r.1 = true ∧ Allocated pf w r.2.2 (size * 2) size cdcfg.cdtabPtr cdcfg.cdtabPhys cdcfg.cdtab64 ∧
      r.2.2.heap.live = (cdcfg.cdtabPtr, size * 2 % 2 ^ 32) :: w.heap.live := by
  have hl := World.alloc_live hp
  simp only [cdtabAllocTable, if_neg hp]
  exact ⟨trivial, ⟨rfl, rfl, rfl, World.memorySet_same.mem_live _ (hl ▸ List.mem_cons_self ..)⟩, hl⟩

theorem cdtabAllocTable_ne_zero {cfg : Stage1Config} (h : (cdtabAllocTable pf size cfg w).1 = true) :
    (w.valMemoryAlloc pf (size * 2)).1 ≠ 0 := by
  intro hz
  simp only [cdtabAllocTable, if_pos hz] at h
  cases h

end

section

variable {cd2l : Bool} {s1cdmax : Nat}

-- A table of one level is requested with no bytes at all.
theorem contextRequest_wraps (h : 25 ≤ s1cdmax % 32) : maxContexts s1cdmax * 2 ^ 6 % 2 ^ 64 * 2 % 2 ^ 32 = 0 := by
  have hd : 2 ^ 25 ∣ maxContexts s1cdmax := by
    have hp : 2 ^ 25 ∣ 2 ^ (s1cdmax % 32) := Nat.pow_dvd_pow 2 h
    rw [maxContexts, signExtend, shl1]
    split
    case isTrue  => exact hp
    case isFalse => exact Nat.dvd_add hp (by decide)
  obtain ⟨q, hq⟩ := hd
  omega

theorem contextDenoted_single (h : ContextDenoted false s1cdmax) : s1cdmax % 32 ≤ 24 := by
  by_contra hn
  have ⟨hok, _, hl⟩ := cdtabAllocTable_of_alloc { Master.zero.stage1 with
      s1cdmax := s1cdmax
      s1fmt   := strtabSte0S1fmtLinear
      cdcfg   := { Master.zero.stage1.cdcfg with l1EntCount := maxContexts s1cdmax % 2 ^ 32 } }
    (spreading_ne_zero .start (maxContexts s1cdmax * (cdtabCdDwords <<< 3) % 2 ^ 64 * 2))
  have hd := h spreading .start { Master.zero.stage1 with s1cdmax := s1cdmax } spreading_addressable rfl hok
  have hle := hd.size_le (unique_size hl)
  have hp := Nat.two_pow_pos (s1cdmax % 32)
  have hz := contextRequest_wraps (show 25 ≤ s1cdmax % 32 by omega)
  have ht : twoLevel false s1cdmax = false := rfl
  rw [ht, if_neg (by decide)] at hle
  simp only [cdtabCdDwords] at hle
  omega

theorem contextDenoted_double (h : ContextDenoted true s1cdmax) : s1cdmax % 32 ≤ 30 := by
  by_contra hn
  have h₃₁ : s1cdmax % 32 = 31 := by omega
  have hm : maxContexts s1cdmax = 2 ^ 64 - 2 ^ 31 := by
    rw [maxContexts, shl1, h₃₁]
    decide
  have ht : twoLevel true s1cdmax = true := by
    rw [twoLevel, hm]
    decide
  have hents : numL1Ents s1cdmax = 2 ^ 32 - 2 ^ 21 := by
    rw [numL1Ents, hm]
    decide
  have hr : ∃ cfg, smmuCdtabAlloc spreading true { Master.zero.stage1 with s1cdmax := s1cdmax } .start =
      cdtabAllocTable spreading (2 ^ 32 - 2 ^ 24) cfg
        (World.start.valMemoryAlloc spreading ((2 ^ 32 - 2 ^ 21) * sizeofCdtabL1CtxDesc)).2 := by
    simp only [smmuCdtabAlloc, ht, hents, if_true]
    rw [if_neg (spreading_ne_zero _ _)]
    exact ⟨_, rfl⟩
  obtain ⟨cfg, hr⟩ := hr
  obtain ⟨hok, hd, hl⟩ := cdtabAllocTable_of_alloc cfg (spreading_ne_zero
    (World.start.valMemoryAlloc spreading ((2 ^ 32 - 2 ^ 21) * sizeofCdtabL1CtxDesc)).2 ((2 ^ 32 - 2 ^ 24) * 2))
  have hdenotes := h spreading .start { Master.zero.stage1 with s1cdmax := s1cdmax } spreading_addressable rfl
  rw [hr] at hdenotes
  obtain ⟨_, _, n, hn, _, hend⟩ := hdenotes hok
  -- The block ends before the first multiple of the mask that the size gives.
  have hvirt : alignToSize (2 ^ 41 + 2 ^ 24) (2 ^ 32 - 2 ^ 24) = 2 ^ 41 + 2 ^ 32 := by decide
  rw [hl, World.alloc_live (spreading_ne_zero _ _), hd.block, spreading_second] at hn
  rw [hd.virt, hd.block, spreading_second, hvirt] at hend
  have hn : n = (2 ^ 32 - 2 ^ 24) * 2 % 2 ^ 32 := by
    rcases List.mem_cons.mp hn with he | he
    case inl => exact (Prod.mk.inj he).2
    case inr => exact absurd (Prod.mk.inj (List.mem_singleton.mp he)).1 (by decide)
  omega

theorem contextDenoted_of_fits (hc : CdFits cd2l s1cdmax) : ContextDenoted cd2l s1cdmax := by
  intro pf w cfg ha hs r cdcfg hok
  obtain ⟨he, hk⟩ := cdtabSize_eq hc
  have hsize : (if twoLevel cd2l s1cdmax then 2 ^ (s1cdmax % 32 - 10) * 8 else 2 ^ (s1cdmax % 32) * 64) =
      2 ^ cdtabLog cd2l s1cdmax := by
    rw [cdtabLog]
    split
    case isTrue ht =>
      obtain ⟨_, h₁₀⟩ := (twoLevel_iff hc).mp ht
      have he : s1cdmax % 32 - 7 = s1cdmax % 32 - 10 + 3 := by omega
      rw [he, Nat.pow_add]
    case isFalse => rw [Nat.pow_add]
  have hr : ∃ cfg₁ w₁, r = cdtabAllocTable pf (2 ^ cdtabLog cd2l s1cdmax) cfg₁ w₁ := by
    rw [← he, cdtabSize]
    simp only [r, smmuCdtabAlloc, hs] at hok ⊢
    split
    case isTrue ht =>
      rw [if_pos ht] at hok
      split
      case isTrue hz =>
        rw [if_pos hz] at hok
        cases hok
      case isFalse => exact ⟨_, _, rfl⟩
    case isFalse => exact ⟨_, _, rfl⟩
  obtain ⟨cfg₁, w₁, hr⟩ := hr
  rw [hsize]
  simp only [cdcfg]
  rw [hr] at hok ⊢
  obtain ⟨_, hd, _⟩ := cdtabAllocTable_of_alloc cfg₁ (cdtabAllocTable_ne_zero hok)
  exact hd.denotes ha rfl (by omega) hk

theorem contextDenoted_iff : ContextDenoted cd2l s1cdmax ↔ CdFits cd2l s1cdmax := by
  constructor
  case mp =>
    intro h
    cases cd2l
    case false => exact .inl (contextDenoted_single h)
    case true  => exact .inr ⟨rfl, contextDenoted_double h⟩
  case mpr => exact contextDenoted_of_fits

end

section

variable {pf : Platform} {smmu smmu' : SmmuDev} {w w' : World} {cd2l : Bool} {s1cdmax : Nat}

theorem tablesDenoted_iff : TablesDenoted smmu cd2l s1cdmax ↔ TablesFit smmu cd2l s1cdmax := by
  have hs : (if smmu.supported.stLevel2lvl then Level1Denoted smmu else LinearDenoted smmu) ↔
      if smmu.supported.stLevel2lvl then smmu.sidBits ≤ 35 else smmu.sidBits ≤ 24 := by
    split
    case isTrue  => exact level1Denoted_iff
    case isFalse => exact linearDenoted_iff
  rw [TablesDenoted, TablesFit, queueDenoted_iff, hs, contextDenoted_iff]
  have h₂ : Level2Denoted smmu := level2Denoted
  constructor
  case mp  => exact fun ⟨hq, ht, _, hc, _⟩ => ⟨hq, ht, hc⟩
  case mpr => exact fun ⟨hq, ht, hc⟩ => ⟨hq, ht, h₂, hc, leafDenoted⟩

-- The next multiple of a size lies in the block, but the size that the source requests can be too small.
theorem aligned_bases_iff (_ : smmuProbe pf smmu w = (true, smmu', w')) :
    (∀ addr k, addr + 2 * 2 ^ k < 2 ^ 64 →
      2 ^ k ∣ alignToSize addr (2 ^ k) ∧ addr < alignToSize addr (2 ^ k) ∧ alignToSize addr (2 ^ k) ≤ addr + 2 ^ k ∧
        InBlock addr (2 * 2 ^ k) (alignToSize addr (2 ^ k)) (2 ^ k)) ∧
    (TablesDenoted smmu' cd2l s1cdmax ↔ TablesFit smmu' cd2l s1cdmax) := by
  refine ⟨?_, tablesDenoted_iff⟩
  intro addr k h
  have ⟨h₁, h₂⟩ := alignToSize_bounds (Nat.le_of_lt h)
  refine ⟨?_, h₁, h₂, inBlock_aligned (Nat.le_of_lt h) (show 0 + 2 ^ k ≤ 2 ^ k by omega)⟩
  rw [alignToSize_eq (Nat.le_of_lt h)]
  exact Nat.dvd_mul_left ..

end

-- A two-level stream table for 2 ^ 16 stream ids and two-level tables of 2 ^ 20 context descriptors.
theorem aligned_bases_two_level :
    ∃ smmu' w', smmuProbe twoLevelIdr .zero .start = (true, smmu', w') ∧ TablesDenoted smmu' true 20 := by
  have h : smmuProbe twoLevelIdr .zero .start = (true, (smmuProbe twoLevelIdr .zero .start).2) := rfl
  refine ⟨_, _, h, ?_⟩
  exact (aligned_bases_iff h).2.mpr ⟨by decide, by decide, .inr ⟨rfl, by decide⟩⟩

-- The block of a linear table for 2 ^ 25 stream ids has no bytes.
theorem aligned_base_outside :
    ∃ smmu' w', smmuProbe linearIdr .zero .start = (true, smmu', w') ∧ smmu'.sidBits = 25 ∧
      smmu'.supported.stLevel2lvl = false ∧ ¬TablesDenoted smmu' true 10 := by
  refine ⟨_, _, rfl, rfl, rfl, ?_⟩
  intro h
  have ⟨_, hs, _⟩ := tablesDenoted_iff.mp h
  exact absurd hs (by decide)

end Smmu
