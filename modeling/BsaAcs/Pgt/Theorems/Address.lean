import BsaAcs.Pgt.Attributes
import BsaAcs.Pgt.Theorems.Destroy

namespace Pgt

-- Which addresses survive in the descriptors that `fill_translation_table` writes. The page mask is
-- a 32-bit value, and two of the three readers of a table descriptor use a mask of `ias` bits.

-- The page that a table descriptor names in its address field and through the masks of its readers.
structure Names (pf : Platform) (p : Nat) (desc : PgtDescriptor) (word q : Nat) : Prop where
  field  : Bits.slice 47 p word = q
  fill   : word &&& (createGlobals pf).pgtAddrMask = q
  lookup : word &&& attributesMask desc.ias p = q
  free   : word &&& (destroyGlobals pf desc.ias).pgtAddrMask = q

theorem attributesMask_eq (hs : Setting pf p desc) :
    attributesMask desc.ias p = (destroyGlobals pf desc.ias).pgtAddrMask := by
  simp only [attributesMask, destroyGlobals, hs.log2PageSize_eq]

theorem names_iff (hs : Setting pf p desc) (hd : 2 ^ p ∣ q) :
    Names pf p desc (tableDescriptor (createGlobals pf) q) q ↔ q < 2 ^ 32 ∧ q < 2 ^ desc.ias := by
  have hg := hs.createGranule
  have hi := hs.input
  have hslice := tableDescriptor_slice hg.toGranule (q := q)
  constructor
  case mp =>
    intro h
    have hf := h.free
    rw [hs.destroyGranule.mask] at hf
    have : Bits.slice (desc.ias - 1) p (tableDescriptor (createGlobals pf) q) < 2 ^ (desc.ias - 1 + 1) :=
      Bits.slice_lt (by omega)
    rw [hf, Nat.sub_add_cancel (by omega)] at this
    exact ⟨(slice_low_iff hg.toGranule hd).mp (hslice ▸ h.field), this⟩
  case mpr =>
    rintro ⟨hl, hlt⟩
    have hfield : Bits.slice 47 p (tableDescriptor (createGlobals pf) q) = q := by
      rw [hslice, slice_low hg.toGranule hd hl]
    have hfree := destroy_mask hs.destroyGranule (tableDescriptor_lt hg.toGranule)
      (show Bits.slice 47 p (tableDescriptor (createGlobals pf) q) < 2 ^ desc.ias by rwa [hfield])
    rw [hfield] at hfree
    exact ⟨hfield, by rw [hg.mask, hfield], attributesMask_eq hs ▸ hfree, hfree⟩

-- A turn of the fill keeps the output address of a page exactly if the address is below 4 GB, and
-- the table descriptor that it writes names the table page exactly if that page is below 4 GB and
-- below the end of the input addresses.
theorem fill_address_iff (pf : Platform) (p : Nat) (desc : PgtDescriptor) (md : MemoryRegionDescriptor)
    (fuel : Nat) (tt : TtDescriptor) (ia oa : Nat) (s s' : State) (hs : Setting pf p desc)
    (ha : AttrBits md.attributes) (hv : Visit pf (createGlobals pf) md fuel tt ia oa s s') :
    (tt.level = 3 → 2 ^ p ∣ oa → oa < 2 ^ 48 →
      (Bits.slice 47 p (s'.mem (tt.tableDesc ia)) = oa ↔ oa < 2 ^ 32)) ∧
    (tt.level ≠ 3 → tt.blockEligible ia oa = false →
      ∀ q s₁, s.nextTable pf (createGlobals pf) (s.mem (tt.tableDesc ia)) = (some q, s₁) →
        2 ^ p ∣ q → q < 2 ^ 48 →
        (Names pf p desc (s'.mem (tt.tableDesc ia)) q ↔ q < 2 ^ 32 ∧ q < 2 ^ desc.ias)) := by
  have hg := hs.createGranule.toGranule
  cases hv
  case page hl =>
    refine ⟨fun _ hd _ => ?_, fun h => absurd hl h⟩
    rw [State.write_mem_same, pageDescriptor_slice hg ha]
    exact slice_low_iff hg hd
  case block hl he => exact ⟨fun h => absurd h hl, fun _ hb => absurd he (by simp [hb])⟩
  case table hl _ hn _ =>
    refine ⟨fun h => absurd h hl, fun _ _ q s₁ hq hd _ => ?_⟩
    obtain ⟨rfl, rfl⟩ : _ = q ∧ _ = s₁ := by simpa using hn.symm.trans hq
    rw [State.write_mem_same]
    exact names_iff hs hd

-- The last table for the page at address 0.
def lastTable : TtDescriptor where
  ttBase     := 0x1000
  inputBase  := 0
  inputTop   := 0xfff
  outputBase := 0x80000000
  level      := 3
  sizeLog2   := 12
  nbits      := 9

-- The table before it, which has no next table yet.
def middleTable : TtDescriptor :=
  { lastTable with ttBase := 0, level := 2, sizeLog2 := 21 }

-- The page keeps its address, and the table descriptor before it names the first page of the allocator.
theorem fill_keeps_low_address :
    Bits.slice 47 12 ((emptyState.write (lastTable.tableDesc 0) (pageDescriptor
      (createGlobals linearPlatform) 0x80000000 0x400)).mem (lastTable.tableDesc 0)) = 0x80000000 ∧
    ∃ s', Visit linearPlatform (createGlobals linearPlatform) ⟨0x80000000, 0, 0x1000, 0x400⟩ 2 middleTable 0
        0x80000000 emptyState s' ∧
      Names linearPlatform 12 (smallDesc 32) (s'.mem (middleTable.tableDesc 0)) 0x1000 := by
  have hs : Setting linearPlatform 12 (smallDesc 32) := linearPlatform_setting (by decide) (by decide)
  have ha : AttrBits 0x400 := by decide
  constructor
  · exact (fill_address_iff linearPlatform 12 (smallDesc 32) ⟨0x80000000, 0, 0x1000, 0x400⟩ 0 lastTable 0 0x80000000
      emptyState _ hs ha (.page rfl)).left rfl (by decide) (by decide) |>.mpr (by decide)
  · have hv : Visit linearPlatform (createGlobals linearPlatform) ⟨0x80000000, 0, 0x1000, 0x400⟩ 2 middleTable 0
        0x80000000 emptyState _ := .table (by decide) (by decide) rfl rfl
    refine ⟨_, hv, ?_⟩
    exact (fill_address_iff linearPlatform 12 (smallDesc 32) ⟨0x80000000, 0, 0x1000, 0x400⟩ 2 middleTable 0 0x80000000
      emptyState _ hs ha hv).right (by decide) (by decide) 0x1000 _ rfl (by decide) (by decide) |>.mpr (by decide)

-- Pages from 4 GB on.
def hugePlatform : Platform where
  pageSize := 0x1000
  page k   := 0x100000000 + 0x1000 * k

-- A page at 4 GB is mapped to address 0, and the table page at 0x100001000 is read back as 0x1000.
theorem fill_drops_high_address :
    (∃ res, valPgtCreate linearPlatform 20 [⟨0x100000000, 0, 0x1000, 0x400⟩]
        { smallDesc 32 with oas := 48 } emptyState = some res ∧ res.status = 0 ∧
      translate res.pgtDesc res.state.mem 12 0 = .mapped 0 0x400) ∧
    ∃ res, valPgtCreate hugePlatform 20 [⟨0x80000000, 0, 0x1000, 0x400⟩]
        { smallDesc 48 with oas := 48 } emptyState = some res ∧ res.status = 0 ∧
      hugePlatform.page 1 = 0x100001000 ∧
      res.state.mem 0x100000000 &&& (createGlobals hugePlatform).pgtAddrMask = 0x1000 ∧
      ¬Names hugePlatform 12 { smallDesc 48 with oas := 48 } (res.state.mem 0x100000000) 0x100001000 := by
  refine ⟨⟨_, rfl, rfl, rfl⟩, _, rfl, rfl, rfl, rfl, fun h => absurd h.fill ?_⟩
  decide

end Pgt
