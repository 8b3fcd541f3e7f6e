import BsaAcs.Smmu.Theorems.Placement

namespace Smmu

open Heap (Frame Inside)

-- The pointers of the driver, by what they point to. SMMUs are named by their index, records by their
-- position in the list.
inductive Handle
  | array
  | queue (k : Nat)
  | level2 (k j : Nat)
  | level1 (k : Nat)
  | strtab (k : Nat)
  | node (i : Nat)
  | record (i : Nat)
  | cdtab (i : Nat)
  | cdLevel1 (i : Nat)
  | leaf (i j : Nat)

namespace Driver

variable (d : Driver)

def stage1At (i : Nat) : Stage1Config :=
  ((d.masters[i]?).map (·.master.stage1)).getD Master.zero.stage1

def ptr : Handle → Nat
  | .array      => d.gSmmu
  | .queue k    => (d.smmus k).cmdq.basePtr
  | .level2 k j => ((d.smmus k).strtabCfg.l1Desc j).l2ptr
  | .level1 k   => (d.smmus k).strtabCfg.l1Ptr
  | .strtab k   => (d.smmus k).strtabCfg.strtabPtr
  | .node i     => ((d.masters[i]?).map (·.node)).getD 0
  | .record i   => ((d.masters[i]?).map (·.ptr)).getD 0
  | .cdtab i    => (d.stage1At i).cdcfg.cdtabPtr
  | .cdLevel1 i => (d.stage1At i).cdcfg.l1Ptr
  | .leaf i j   => ((d.stage1At i).cdcfg.l1Desc j).l2ptr

def smmuHandles (k : Nat) : List Handle :=
  if (d.smmus k).base = 0 then [.queue k]
  else
    .queue k :: (if (d.smmus k).supported.stLevel2lvl
      then (List.range (d.smmus k).strtabCfg.l1EntCount).map (.level2 k) ++ [.level1 k, .strtab k]
      else [.strtab k])

def nodeHandles (i : Nat) : List Handle :=
  .node i :: .record i :: .cdtab i :: .cdLevel1 i :: (List.range (numL1Ents (d.stage1At i).s1cdmax)).map (.leaf i)

def handles : List Handle :=
  .array :: ((List.range d.numSmmus).flatMap d.smmuHandles ++ (List.range d.masters.length).flatMap d.nodeHandles)

variable {d} {others : List Nat}

theorem owned_eq (k : Nat) : (d.smmus k).owned = (d.smmuHandles k).map d.ptr := by
  rw [SmmuDev.owned, smmuHandles]
  split
  case isTrue => rfl
  case isFalse =>
    rw [SmmuDev.tables]
    split
    case isTrue =>
      simp only [List.map_cons, List.map_append, List.map_map, List.map_nil]
      rfl
    case isFalse => rfl

theorem blocks_eq {i : Nat} {n : Node} (hn : d.masters[i]? = some n) : n.blocks = (d.nodeHandles i).map d.ptr := by
  have hs : d.stage1At i = n.master.stage1 := by rw [stage1At, hn]; rfl
  simp only [nodeHandles, List.map_cons, List.map_map, Function.comp_def, ptr, hs, hn]
  rfl

theorem flatMap_range {l : List Node} {f : Node → List Nat} {g : Nat → List Nat}
    (h : ∀ i n, l[i]? = some n → f n = g i) : l.flatMap f = (List.range l.length).flatMap g := by
  induction l generalizing g
  case nil => rfl
  case cons n l hi =>
    rw [List.flatMap_cons, List.length_cons, List.range_succ_eq_map, List.flatMap_cons, List.flatMap_map]
    rw [h 0 n rfl, hi fun i m hm => h (i + 1) m hm]

theorem roots_eq : d.roots = d.handles.map d.ptr := by
  have h₁ : d.smmuBlocks = (List.range d.numSmmus).flatMap fun k => (d.smmuHandles k).map d.ptr := by
    rw [smmuBlocks, funext owned_eq]
  have h₂ : d.masters.flatMap Node.blocks = (List.range d.masters.length).flatMap fun i => (d.nodeHandles i).map d.ptr :=
    flatMap_range fun i n hn => blocks_eq hn
  rw [roots, handles, List.map_cons, List.map_append, List.map_flatMap, List.map_flatMap, h₁, h₂]
  rfl

-- Different pointers point to different blocks.
theorem ptr_inj {x y : Handle} (ho : d.world.Owns (d.roots ++ others)) (hx : x ∈ d.handles) (hy : y ∈ d.handles)
    (hp : d.ptr x ≠ 0) (he : d.ptr x = d.ptr y) : x = y := by
  have hn : ((d.roots ++ others).filter (· ≠ 0)).Nodup := ho.perm.nodup_iff.mp ho.nodup
  rw [List.filter_append, roots_eq, List.filter_map] at hn
  have hn := hn.of_append_left
  refine List.inj_on_of_nodup_map hn ?_ ?_ he
  · exact List.mem_filter.mpr ⟨hx, by simpa using hp⟩
  · exact List.mem_filter.mpr ⟨hy, by simpa using he ▸ hp⟩

section

variable {k i j : Nat} {n : Node}

theorem mem_queue (hk : k < d.numSmmus) : .queue k ∈ d.handles := by
  refine List.mem_cons_of_mem _ (List.mem_append_left _ (List.mem_flatMap.mpr ⟨k, List.mem_range.mpr hk, ?_⟩))
  rw [smmuHandles]
  split <;> simp

theorem mem_strtab (hk : k < d.numSmmus) (hb : (d.smmus k).base ≠ 0) : .strtab k ∈ d.handles := by
  refine List.mem_cons_of_mem _ (List.mem_append_left _ (List.mem_flatMap.mpr ⟨k, List.mem_range.mpr hk, ?_⟩))
  rw [smmuHandles, if_neg hb]
  split <;> simp

theorem mem_level2 (hk : k < d.numSmmus) (hb : (d.smmus k).base ≠ 0) (hl : (d.smmus k).supported.stLevel2lvl = true)
    (hj : j < (d.smmus k).strtabCfg.l1EntCount) : .level2 k j ∈ d.handles := by
  refine List.mem_cons_of_mem _ (List.mem_append_left _ (List.mem_flatMap.mpr ⟨k, List.mem_range.mpr hk, ?_⟩))
  rw [smmuHandles, if_neg hb, if_pos hl]
  simp [hj]

theorem mem_cdtab (hn : d.masters[i]? = some n) : .cdtab i ∈ d.handles := by
  have ⟨hi, _⟩ := List.getElem?_eq_some_iff.mp hn
  refine List.mem_cons_of_mem _ (List.mem_append_right _ (List.mem_flatMap.mpr ⟨i, List.mem_range.mpr hi, ?_⟩))
  simp [nodeHandles]

theorem mem_leaf (hn : d.masters[i]? = some n) (hj : j < numL1Ents n.master.stage1.s1cdmax) :
    .leaf i j ∈ d.handles := by
  have ⟨hi, _⟩ := List.getElem?_eq_some_iff.mp hn
  have hs : d.stage1At i = n.master.stage1 := by rw [stage1At, hn]; rfl
  refine List.mem_cons_of_mem _ (List.mem_append_right _ (List.mem_flatMap.mpr ⟨i, List.mem_range.mpr hi, ?_⟩))
  simp [nodeHandles, hs, hj]

end

-- The word at `x` lies in the block that `h` points to.
def In (d : Driver) (h : Handle) (x : Nat) : Prop :=
  h ∈ d.handles ∧ ∃ size, (d.ptr h, size) ∈ d.world.heap.live ∧ Inside (d.ptr h, size) x

theorem In.unique {g h : Handle} {x : Nat} (hk : d.Kept others) (hp : d.Placed) (hg : d.In g x) (hh : d.In h x) : g = h := by
  have ⟨hg, s, hs, hx⟩ := hg
  have ⟨hh, t, ht, hy⟩ := hh
  by_cases he : (d.ptr g, s) = (d.ptr h, t)
  case pos => exact ptr_inj hk.owns hg hh (Heap.Owns.ne_zero hk.owns hs) (Prod.mk.inj he).1
  case neg => exact absurd hy (hp.laid.not_inside hs ht he hx)

end Driver

section

variable {d : Driver} {others : List Nat} {k i sid ssid x : Nat} {n : Node}

-- The block that holds the entry of a stream.
def Driver.steHandle (d : Driver) (k sid : Nat) : Handle :=
  if (d.smmus k).supported.stLevel2lvl then .level2 k (sid >>> strtabSplit) else .strtab k

-- There is an entry for the stream.
def SmmuDev.HasSte (smmu : SmmuDev) (sid : Nat) : Prop :=
  sid < 2 ^ smmu.sidBits ∧
    (smmu.supported.stLevel2lvl = true → (smmu.strtabCfg.l1Desc (sid >>> strtabSplit)).l2ptr ≠ 0)

-- In a linear table, there is an entry for each stream id in range. `val_smmu_unmap` looks for all entries there.
theorem linear_hasSte {smmu : SmmuDev} (hl : smmu.supported.stLevel2lvl = false) (hr : sidInRange smmu sid = true) :
    smmu.HasSte sid := by
  refine ⟨sidInRange_iff.mp hr, fun hc => ?_⟩
  rw [hl] at hc
  cases hc

theorem linear_ste {smmu : SmmuDev} (hl : smmu.supported.stLevel2lvl = false) :
    smmuStrtabGetSteForSid smmu sid = smmu.strtabCfg.strtab64 + sid * strtabSteDwords % 2 ^ 32 * 8 := by
  rw [smmuStrtabGetSteForSid, hl]
  rfl

-- The offset of an entry in its table.
theorem ste_offset {smmu : SmmuDev} (hl : smmu.supported.stLevel2lvl = false) (hs : sid < 2 ^ smmu.sidBits)
    (hb : smmu.sidBits ≤ 24) : smmuStrtabGetSteForSid smmu sid = smmu.strtabCfg.strtab64 + sid * 64 := by
  have hp : 2 ^ smmu.sidBits ≤ 2 ^ 24 := Nat.pow_le_pow_right two_pos hb
  rw [linear_ste hl, strtabSteDwords, Nat.mod_eq_of_lt (by omega)]
  omega

theorem strtabSize_eq {smmu : SmmuDev} (hf : SizesFit smmu) :
    ∃ e, strtabSize smmu = 2 ^ e ∧ 2 * 2 ^ e < 2 ^ 32 ∧
      e = if smmu.supported.stLevel2lvl then smmu.sidBits - 8 + 3 else smmu.sidBits + 6 := by
  have hf := hf.2
  cases hl : smmu.supported.stLevel2lvl
  case false =>
    simp only [hl, Bool.false_eq_true, if_false] at hf ⊢
    refine ⟨_, ?_, ?_, rfl⟩
    · rw [strtabSize, hl]
      exact linearSize_eq hf
    · have hp : 2 ^ (smmu.sidBits + 6) ≤ 2 ^ 30 := Nat.pow_le_pow_right two_pos (by omega)
      omega
  case true =>
    simp only [hl, if_true] at hf ⊢
    refine ⟨_, ?_, ?_, rfl⟩
    · rw [strtabSize, hl]
      exact l1TblSize_eq hf
    · have hp : 2 ^ (smmu.sidBits - 8 + 3) ≤ 2 ^ 29 := Nat.pow_le_pow_right two_pos (by omega)
      omega

-- The words of the stream table itself.
theorem strtab_in (hp : d.Placed) (hk : k < d.numSmmus) (hb : (d.smmus k).base ≠ 0) (hf : SizesFit (d.smmus k))
    (hx : Inside ((d.smmus k).strtabCfg.strtab64, strtabSize (d.smmus k)) x) : d.In (.strtab k) x := by
  have ⟨e, he, hlt, _⟩ := strtabSize_eq hf
  have hpl := hp.smmus k hk hb
  have hm := hpl.strtab
  have hfit := hp.laid.fits _ hm
  rw [hpl.aligned] at hx
  rw [he, Nat.mod_mod, Nat.mod_eq_of_lt hlt] at hm hfit
  rw [he] at hx
  exact ⟨Driver.mem_strtab hk hb, _, hm, aligned_inside hfit hx⟩

theorem l1Word_in (hp : d.Placed) (hk : k < d.numSmmus) (hb : (d.smmus k).base ≠ 0) (hf : SizesFit (d.smmus k))
    (hl : (d.smmus k).supported.stLevel2lvl = true) (h₈ : 8 < (d.smmus k).sidBits) (hs : sid < 2 ^ (d.smmus k).sidBits) :
    d.In (.strtab k) (l1Word (d.smmus k) sid) := by
  have ⟨e, he, hlt, hlog⟩ := strtabSize_eq hf
  rw [hl, if_pos rfl] at hlog
  have hi : sid >>> strtabSplit < 2 ^ ((d.smmus k).sidBits - 8) := by
    rw [Nat.shiftRight_eq_div_pow, Nat.div_lt_iff_lt_mul (Nat.two_pow_pos _), strtabSplit, ← Nat.pow_add,
      Nat.sub_add_cancel (by omega)]
    exact hs
  refine strtab_in hp hk hb hf ?_
  rw [he, hlog, Nat.pow_add, l1Word, strtabL1DescDwords]
  constructor <;> simp only <;> omega

theorem ste_in (hp : d.Placed) (hk : k < d.numSmmus) (hb : (d.smmus k).base ≠ 0) (hf : SizesFit (d.smmus k))
    (hs : (d.smmus k).HasSte sid) (hx : Inside (smmuStrtabGetSteForSid (d.smmus k) sid, 64) x) :
    d.In (d.steHandle k sid) x := by
  obtain ⟨hsid, hptr⟩ := hs
  rw [Driver.steHandle]
  cases hl : (d.smmus k).supported.stLevel2lvl
  case false =>
    obtain ⟨e, he, _, hlog⟩ := strtabSize_eq hf
    have hbits := hf.2
    simp only [hl, Bool.false_eq_true, if_false] at hlog hbits ⊢
    refine strtab_in hp hk hb hf ?_
    rw [ste_offset hl hsid hbits] at hx
    obtain ⟨_, _⟩ := hx
    rw [he, hlog, Nat.pow_add]
    constructor <;> simp only at * <;> omega
  case true =>
    obtain ⟨h₁, h₂, _, _, h₃⟩ := (hp.smmus k hk hb).level2 _ (hptr hl)
    have hfit := hp.laid.fits _ h₁
    simp only [if_true]
    refine ⟨Driver.mem_level2 hk hb hl h₃, _, h₁, aligned_inside hfit ?_⟩
    rw [smmuStrtabGetSteForSid, hl, if_pos rfl, strtabL1DescDwords, Nat.mul_one, h₂] at hx
    have hm : sid &&& ((1 <<< strtabSplit) - 1) < 2 ^ 8 := Nat.and_lt_two_pow _ (by decide)
    rw [strtabSteDwords] at hx
    obtain ⟨_, _⟩ := hx
    constructor <;> simp only [Driver.ptr] at * <;> omega

theorem queue_in (hp : d.Placed) (hk : k < d.numSmmus) (hb : (d.smmus k).base ≠ 0) (hf : SizesFit (d.smmus k))
    (hx : QueueWords (d.smmus k).cmdq x) : d.In (.queue k) x := by
  have hpl := hp.smmus k hk hb
  have hm := hpl.queue
  have hfit := hp.laid.fits _ hm
  rw [(cmdqSize_fits hf.1).2] at hm hfit
  exact ⟨Driver.mem_queue hk, _, hm, queueWords_inside hpl.base hf.1 hfit hx⟩

-- There is a descriptor for the substream.
def Stage1Config.HasCd (cfg : Stage1Config) (ssid : Nat) : Prop :=
  cfg.cdcfg.cdtabPtr ≠ 0 ∧ ssid < 2 ^ (cfg.s1cdmax % 32) ∧
    (cfg.s1fmt ≠ strtabSte0S1fmtLinear → (cfg.cdcfg.l1Desc (ssid >>> cdtabSplit)).l2ptr ≠ 0)

-- The block that holds it.
def cdHandle (cfg : Stage1Config) (i ssid : Nat) : Handle :=
  if cfg.s1fmt = strtabSte0S1fmtLinear then .cdtab i else .leaf i (ssid >>> cdtabSplit)

theorem linear_iff {cd2l : Bool} {cfg : Stage1Config} {live : List (Nat × Nat)} (hp : cfg.Placed cd2l live)
    (hz : cfg.cdcfg.cdtabPtr ≠ 0) : cfg.s1fmt = strtabSte0S1fmtLinear ↔ twoLevel cd2l cfg.s1cdmax = false := by
  have ⟨_, _, _, _, h⟩ := hp.table hz
  rw [h]
  cases twoLevel cd2l cfg.s1cdmax <;> simp [strtabSte0S1fmt64kL2, strtabSte0S1fmtLinear]

theorem cdtab_in {b : Nat} (hp : d.Placed) (hn : d.masters[i]? = some n) (hb : n.master.smmu = some b)
    (hz : n.master.stage1.cdcfg.cdtabPtr ≠ 0)
    (hx : Inside (n.master.stage1.cdcfg.cdtab64,
      2 ^ cdtabLog (d.smmus b).supported.cd2l n.master.stage1.s1cdmax) x) : d.In (.cdtab i) x := by
  have ⟨_, hm, ha, _⟩ := (hp.nodes n (List.mem_of_getElem? hn) b hb).table hz
  have hfit := hp.laid.fits _ hm
  have hs : d.ptr (.cdtab i) = n.master.stage1.cdcfg.cdtabPtr := by rw [Driver.ptr, Driver.stage1At, hn]; rfl
  rw [ha] at hx
  refine ⟨Driver.mem_cdtab hn, 2 * 2 ^ cdtabLog (d.smmus b).supported.cd2l n.master.stage1.s1cdmax, ?_, ?_⟩
  · rw [hs]
    exact hm
  · rw [hs]
    exact aligned_inside hfit hx

theorem cdL1Word_in {b : Nat} (hp : d.Placed) (hn : d.masters[i]? = some n) (hb : n.master.smmu = some b)
    (hz : n.master.stage1.cdcfg.cdtabPtr ≠ 0) (hl : n.master.stage1.s1fmt ≠ strtabSte0S1fmtLinear)
    (hs : ssid < 2 ^ (n.master.stage1.s1cdmax % 32)) : d.In (.cdtab i) (cdL1Word n.master.stage1 ssid) := by
  have hpl := hp.nodes n (List.mem_of_getElem? hn) b hb
  have ⟨hc, _⟩ := hpl.table hz
  have ht : twoLevel (d.smmus b).supported.cd2l n.master.stage1.s1cdmax = true :=
    Bool.eq_true_of_not_eq_false fun hf => hl ((linear_iff hpl hz).mpr hf)
  have ⟨_, h₁₀⟩ := (twoLevel_iff hc).mp ht
  refine cdtab_in hp hn hb hz ?_
  have he : 2 ^ (n.master.stage1.s1cdmax % 32) = 2 ^ (n.master.stage1.s1cdmax % 32 - 10) * 2 ^ 10 := by
    rw [← Nat.pow_add, Nat.sub_add_cancel (by omega)]
  have hi : ssid >>> cdtabSplit < 2 ^ (n.master.stage1.s1cdmax % 32 - 10) := by
    rw [Nat.shiftRight_eq_div_pow, Nat.div_lt_iff_lt_mul (Nat.two_pow_pos _), cdtabSplit, ← he]
    exact hs
  have hlog : 2 ^ cdtabLog (d.smmus b).supported.cd2l n.master.stage1.s1cdmax =
      2 ^ (n.master.stage1.s1cdmax % 32 - 10) * 2 ^ 3 := by
    rw [cdtabLog, if_pos ht, ← Nat.pow_add]
    congr 1
    omega
  rw [hlog, cdL1Word, cdtabL1DescDwords]
  constructor <;> simp only <;> omega

theorem cd_in {b : Nat} (hk : d.Kept others) (hp : d.Placed) (hn : d.masters[i]? = some n)
    (hb : n.master.smmu = some b) (hs : n.master.stage1.HasCd ssid)
    (hx : Inside (cdEntry n.master.stage1 ssid, 64) x) : d.In (cdHandle n.master.stage1 i ssid) x := by
  obtain ⟨hz, hlt, hleaf⟩ := hs
  have hmem := List.mem_of_getElem? hn
  have hpl := hp.nodes n hmem b hb
  rw [cdHandle]
  by_cases hl : n.master.stage1.s1fmt = strtabSte0S1fmtLinear
  case pos =>
    rw [if_pos hl]
    obtain ⟨hc, _⟩ := hpl.table hz
    have ht := (linear_iff hpl hz).mp hl
    obtain ⟨_, hlt32⟩ := cdtabSize_eq hc
    refine cdtab_in hp hn hb hz ?_
    rw [cdtabLog, ht] at hlt32 ⊢
    simp only [Bool.false_eq_true, if_false, Nat.pow_add] at hlt32 ⊢
    rw [cdEntry, if_pos hl, cdtabCdDwords, Nat.mod_eq_of_lt (by omega)] at hx
    obtain ⟨_, _⟩ := hx
    constructor <;> simp only at * <;> omega
  case neg =>
    rw [if_neg hl]
    have hj := hleaf hl
    obtain ⟨h₁, h₂, _⟩ := hpl.leaf _ hj
    have hfit := hp.laid.fits _ h₁
    have hr := ((hk.nodes n hmem).bound b hb).leaf _ hj
    have he : d.ptr (.leaf i (ssid >>> cdtabSplit)) = (n.master.stage1.cdcfg.l1Desc (ssid >>> cdtabSplit)).l2ptr := by
      rw [Driver.ptr, Driver.stage1At, hn]
      rfl
    refine ⟨Driver.mem_leaf hn hr.2, 2 * 2 ^ 16, ?_, ?_⟩
    · rw [he]
      exact h₁
    · rw [he]
      refine aligned_inside hfit ?_
      have hm : ssid &&& (cdtabL2EntryCount - 1) < 2 ^ 10 := Nat.and_lt_two_pow _ (by decide)
      rw [cdEntry, if_neg hl, cdtabCdDwords, h₂] at hx
      obtain ⟨_, _⟩ := hx
      constructor <;> simp only at * <;> omega

end

end Smmu
