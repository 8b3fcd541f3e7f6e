import BsaAcs.Pgt.Theorems.Short

namespace Pgt

-- What `val_pgt_destroy` frees after a successful `val_pgt_create`.

theorem pages_zero : Tree.pages p 0 t = [] := by
  cases t <;> rfl

theorem foldl_freed {l : List Nat} {s : State} {f : State → Nat → State} {pages : Nat → List Nat}
    (hf : ∀ i ∈ l, ∀ s', s'.mem = s.mem → f s' i = { s' with freed := s'.freed ++ pages i }) :
    l.foldl f s = { s with freed := s.freed ++ l.flatMap pages } := by
  induction l generalizing s
  case nil => simp
  case cons i l ih =>
    rw [List.foldl_cons, hf i List.mem_cons_self s rfl, ih, List.flatMap_cons, ←List.append_assoc]
    exact fun j hj s' hs' => hf j (List.mem_cons_of_mem _ hj) s' hs'

theorem foldl_frees {is : List Nat} {s : State} {f : State → Nat → State} {S : List Nat → Nat → Prop}
    (hmono : ∀ l l' q, l ⊆ l' → S l q → S l' q)
    (hf : ∀ i ∈ is, ∀ s', s'.mem = s.mem → ∃ l, f s' i = { s' with freed := s'.freed ++ l } ∧ ∀ q ∈ l, S l q) :
    ∃ l, is.foldl f s = { s with freed := s.freed ++ l } ∧ ∀ q ∈ l, S l q := by
  induction is generalizing s
  case nil => exact ⟨[], by simp, by simp⟩
  case cons i is ih =>
    obtain ⟨l, hl, hs⟩ := hf i List.mem_cons_self s rfl
    obtain ⟨l', hl', hs'⟩ := @ih (f s i) fun j hj s' hm => hf j (List.mem_cons_of_mem _ hj) s' (by rw [hm, hl])
    refine ⟨l ++ l', by rw [List.foldl_cons, hl', hl, List.append_assoc], fun q hq => ?_⟩
    rcases List.mem_append.mp hq with hq | hq
    case inl => exact hmono l _ q (List.subset_append_left ..) (hs q hq)
    case inr => exact hmono l' _ q (List.subset_append_right ..) (hs' q hq)

-- In `val_pgt_destroy` the address mask is that of an input address.
structure DestroyGranule (g : Globals) (p ias : Nat) : Prop extends Granule g p where
  mask  : ∀ w, w &&& g.pgtAddrMask = Bits.slice (ias - 1) p w
  input : p < ias

theorem Setting.destroyGranule (hs : Setting pf p desc) :
    DestroyGranule (destroyGlobals pf desc.ias) p desc.ias where
  pageSize := hs.pageSize
  bits     := by
    have := hs.lo
    have := hs.hi
    simp only [destroyGlobals, hs.log2PageSize_eq]
    exact sub32_eq (by omega) (by omega)
  lo       := hs.lo
  hi       := hs.hi
  input    := hs.input
  mask     := by
    intro w
    have := hs.input
    simp only [destroyGlobals, hs.log2PageSize_eq, Nat.one_shiftLeft, Bits.slice]
    rw [show desc.ias - p = desc.ias - 1 - p + 1 by omega]

section Free

variable {g : Globals} {p ias : Nat} (hg : DestroyGranule g p ias)

include hg

-- Both masks find the same page, if the page lies below `2 ^ ias`.
theorem destroy_mask (hw : w < 2 ^ 32) (hq : Bits.slice 47 p w < 2 ^ ias) :
    w &&& g.pgtAddrMask = Bits.slice 47 p w := by
  have := hg.hi
  have := hg.input
  rw [hg.mask]
  apply Nat.eq_of_testBit_eq
  intro i
  rw [Bits.testBit_slice (by omega), Bits.testBit_slice (by omega)]
  by_cases hi : p ≤ i ∧ i ≤ 47 ∧ i ≤ ias - 1
  case pos => simp [hi]
  case neg =>
    by_cases hwi : w.testBit i
    case neg => simp [hwi]
    case pos =>
      have h32 : i < 32 := by
        by_contra hc
        have := Nat.testBit_lt_two_pow (hw.trans_le <| Nat.pow_le_pow_right (by omega) (Nat.not_lt.mp hc))
        simp [this] at hwi
      have hpi : ¬(p ≤ i ∧ i ≤ ias - 1) := by omega
      have hpi' : ¬(p ≤ i ∧ i ≤ 47) := by
        intro hp
        have hlt := hq.trans_le <| Nat.pow_le_pow_right (n := 2) (by omega) (show ias ≤ i by omega)
        have := Nat.testBit_lt_two_pow hlt
        simp [Bits.testBit_slice (show p ≤ 47 by omega), hwi, hp] at this
      simp [hpi, hpi']

-- The pages of a table are freed in order, each after the pages below it.
theorem freeTranslationTable_eq (hd : h < depth) (hl : (level + h) % 2 ^ 32 = 3)
    (hlt : level < 2 ^ 32) (hh : h < 64) (hn : nbits ≤ p - 3)
    (hp : ∀ i, Plain h (readTree s.mem p h base i))
    (hq : ∀ i < 2 ^ nbits, ∀ q ∈ (readTree s.mem p h base i).pages p h, q ≠ 0 ∧ q < 2 ^ ias) :
    freeTranslationTable g depth base nbits level s =
    { s with
      freed := s.freed ++ (List.range (2 ^ nbits)).flatMap
        (fun i => (readTree s.mem p h base i).pages p h) } := by
  induction h generalizing depth level base nbits s
  case zero =>
    obtain ⟨depth, rfl⟩ : ∃ n, depth = n + 1 := ⟨depth - 1, by omega⟩
    have : level = 3 := by omega
    have hnil : (List.range (2 ^ nbits)).flatMap
        (fun i => (readTree s.mem p 0 base i).pages p 0) = [] :=
      List.flatMap_eq_nil_iff.mpr fun _ _ => pages_zero
    rw [freeTranslationTable, if_pos this, hnil, List.append_nil]
  case succ h ih =>
    obtain ⟨depth, rfl⟩ : ∃ n, depth = n + 1 := ⟨depth - 1, by omega⟩
    have : level ≠ 3 := by omega
    rw [freeTranslationTable, if_neg this, Nat.one_shiftLeft]
    apply foldl_freed
    intro i hi s' hm
    have hi := List.mem_range.mp hi
    have hib : i < 2 ^ (p - 3) := hi.trans_le <| Nat.pow_le_pow_right (by omega) hn
    have hp := hp i
    have hq := hq i hi
    rw [readTree_eq_decode hib, ←hm] at hp hq
    rw [readTree_eq_decode hib, ←hm]
    by_cases hz : s'.mem (base + 8 * i) = 0
    case pos => simp [hz, decode]
    case neg =>
      by_cases hb : (s'.mem (base + 8 * i)).testBit 1
      case neg => simp [hz, hb, decode, isPgtEntryBlock_eq]
      case pos =>
        simp only [decode, if_neg hz, if_pos hb] at hp hq ⊢
        have hself := hq _ (mem_pages_table.mpr <| .inr rfl)
        have hmask := destroy_mask hg hp.left hself.right
        have hlv : ((level + 1) % 2 ^ 32 + h) % 2 ^ 32 = 3 := by omega
        have hrec := ih (s := s') (Nat.lt_of_succ_lt_succ hd) hlv
          (Nat.mod_lt _ (by decide)) (by omega) le_rfl hp.right
          fun j hj q hqj => hq q <| mem_pages_table.mpr <| .inl <| slot_mem_tablePages hj hqj
        simp only [isPgtEntryBlock_eq, hb, hmask, hself.left, if_false, Bool.not_true,
          Bool.false_eq_true, hg.bits, hrec, State.valMemoryFreePages, Tree.pages, List.append_assoc]

-- Whatever the memory holds, a page is freed for a word with bit 1 in the table or in a page that is freed too.
theorem freeTranslationTable_source (depth base level : Nat) (s : State) (hn : nbits ≤ p - 3) :
    ∃ l, freeTranslationTable g depth base nbits level s = { s with freed := s.freed ++ l } ∧
      ∀ q ∈ l, ∃ b ∈ base :: l, ∃ i < 2 ^ (p - 3), (s.mem (b + 8 * i)).testBit 1 = true ∧
        q = s.mem (b + 8 * i) &&& g.pgtAddrMask := by
  induction depth generalizing base nbits level s
  case zero => exact ⟨[], by simp [freeTranslationTable], by simp⟩
  case succ depth ih =>
    rw [freeTranslationTable]
    split
    case isTrue => exact ⟨[], by simp, by simp⟩
    case isFalse =>
      refine foldl_frees (S := fun l q => ∃ b ∈ base :: l, ∃ i < 2 ^ (p - 3), (s.mem (b + 8 * i)).testBit 1 = true ∧
        q = s.mem (b + 8 * i) &&& g.pgtAddrMask) ?mono ?turn
      case mono =>
        rintro l l' q hl ⟨b, hb, hrest⟩
        exact ⟨b, List.cons_subset_cons base hl hb, hrest⟩
      case turn =>
        intro i hi s' hm
        have hi : i < 2 ^ (p - 3) := by
          rw [List.mem_range, Nat.one_shiftLeft] at hi
          exact hi.trans_le (Nat.pow_le_pow_right two_pos hn)
        simp only [← hm]
        split
        case isTrue => exact ⟨[], by simp, by simp⟩
        case isFalse =>
          split
          case isTrue => exact ⟨[], by simp, by simp⟩
          case isFalse hblock =>
            split
            case isTrue => exact ⟨[], by simp, by simp⟩
            case isFalse =>
              obtain ⟨l, hl, hsource⟩ := @ih g.bitsPerLevel (s'.mem (base + 8 * i) &&& g.pgtAddrMask)
                ((level + 1) % 2 ^ 32) s' hg.bits.le
              have hbit : (s'.mem (base + 8 * i)).testBit 1 = true := by simpa [isPgtEntryBlock_eq] using hblock
              refine ⟨l ++ [s'.mem (base + 8 * i) &&& g.pgtAddrMask], ?_, fun q hq => ?_⟩
              · rw [hl, State.valMemoryFreePages, List.append_assoc]
              · rw [List.mem_append, List.mem_singleton] at hq
                rcases hq with hq | rfl
                case inl =>
                  obtain ⟨b, hb, hrest⟩ := hsource q hq
                  refine ⟨b, List.mem_cons_of_mem _ ?_, hrest⟩
                  rw [List.mem_append, List.mem_singleton]
                  exact (List.mem_cons.mp hb).symm
                case inr => exact ⟨base, List.mem_cons_self, i, hi, hbit, rfl⟩

end Free

-- The table is a tree of allocated pages in the slots that its root can index.
structure Shaped (pf : Platform) (p nbits : Nat) (s : State) (h base : Nat) : Prop where
  owned  : Owned pf p s h base
  plain  : ∀ i, Plain h (readTree s.mem p h base i)
  beyond : ∀ i, 2 ^ nbits ≤ i → readTree s.mem p h base i = .empty

-- It consists of exactly the pages that the calls from `m` on handed out.
def Complete (pf : Platform) (p m : Nat) (s : State) (h base : Nat) : Prop :=
  ∀ q, q ∈ tablePages p h (readTree s.mem p h base) ↔ ∃ k, m ≤ k ∧ k < s.allocs ∧ q = pf.page k

theorem flatMap_range_eq {f : Nat → List Nat} (hle : n ≤ m) (hf : ∀ i, n ≤ i → f i = []) :
    (List.range m).flatMap f = (List.range n).flatMap f := by
  obtain ⟨k, rfl⟩ := Nat.exists_eq_add_of_le hle
  have : ((List.range k).map (n + ·)).flatMap f = [] :=
    List.flatMap_eq_nil_iff.mpr fun i hi => by
      obtain ⟨j, _, rfl⟩ := List.mem_map.mp hi
      exact hf _ (Nat.le_add_right ..)
  rw [List.range_add, List.flatMap_append, this, List.append_nil]

namespace Setting

variable {pf : Platform} {p : Nat} {desc : PgtDescriptor} {md : MemoryRegionDescriptor}
  (hs : Setting pf p desc) (hf : PageAllocator pf p) (hr : ¬Rejects pf desc md)
  (ha : md.attributes.testBit 1 = false)

include hs

theorem height_lt : p + rootHeight p desc.ias * (p - 3) < 64 := by
  have := hs.height_bounds
  have := hs.input_lt
  omega

theorem rootState_shaped (hz : pf.page s.allocs ≠ 0) : Shaped pf p (rootBits p desc.ias)
    (rootState pf s) (rootHeight p desc.ias) (pf.page s.allocs) where
  owned  := hs.rootState_owned hz
  plain  := fun _ => by rw [hs.rootState_empty]; exact plain_empty
  beyond := fun _ _ => by rw [hs.rootState_empty]

theorem rootState_complete :
    Complete pf p (s.allocs + 1) (rootState pf s) (rootHeight p desc.ias) (pf.page s.allocs) := by
  intro q
  rw [hs.rootState_empty, tablePages_empty]
  simp only [List.not_mem_nil, false_iff, not_exists, not_and]
  intro k h₁ h₂
  exact absurd (h₁.trans_lt h₂) (lt_irrefl _)

-- `val_pgt_destroy` frees the pages of the table and then its root.
theorem valPgtDestroy_eq
    (hsh : Shaped pf p (rootBits p desc.ias) s (rootHeight p desc.ias) base) (hz : base ≠ 0)
    (hq : ∀ q ∈ tablePages p (rootHeight p desc.ias) (readTree s.mem p (rootHeight p desc.ias) base),
      q < 2 ^ desc.ias) :
    (valPgtDestroy pf { desc with pgtBase := base } s).freed = s.freed ++
      (tablePages p (rootHeight p desc.ias) (readTree s.mem p (rootHeight p desc.ias) base) ++ [base]) := by
  have hb := hs.height_bounds
  have hlt := hs.input_lt
  have hlo := hs.lo
  have hh := hs.rootHeight_lt
  have hbits := hs.destroyGranule.bits
  have hfree := freeTranslationTable_eq hs.destroyGranule
    (Nat.lt_succ_self (rootHeight p desc.ias)) (rootLevel_add hh) (Nat.mod_lt _ (by decide)) hh hs.rootBits_le
    hsh.plain fun i hi q hqi => by
      have hm := slot_mem_tablePages (hi.trans_le <| Nat.pow_le_pow_right (by omega) hs.rootBits_le) hqi
      have ⟨_, _, _, hqz⟩ := hsh.owned.pages q hm
      exact ⟨hqz, hq q hm⟩
  have htab : tablePages p (rootHeight p desc.ias) (readTree s.mem p (rootHeight p desc.ias) base) =
      (List.range (2 ^ rootBits p desc.ias)).flatMap
        (fun i => (readTree s.mem p (rootHeight p desc.ias) base i).pages p (rootHeight p desc.ias)) :=
    flatMap_range_eq (Nat.pow_le_pow_right (by omega) hs.rootBits_le) fun i hi => by
      rw [hsh.beyond i hi, pages_empty]
  simp only [valPgtDestroy, hz, if_false, hs.log2PageSize_eq, hbits, hs.levels_eq, hs.rootSizeLog2_eq,
    hs.rootBits_eq, hfree, State.valMemoryFreePages, htab, List.append_assoc]

theorem valPgtDestroy_source (hz : base ≠ 0) :
    ∃ l, (valPgtDestroy pf { desc with pgtBase := base } s).freed = s.freed ++ (l ++ [base]) ∧
      ∀ q ∈ l, ∃ b ∈ base :: l, ∃ i < 2 ^ (p - 3), (s.mem (b + 8 * i)).testBit 1 = true ∧
        q = Bits.slice (desc.ias - 1) p (s.mem (b + 8 * i)) := by
  have hg := hs.destroyGranule
  obtain ⟨l, hl, hsource⟩ := freeTranslationTable_source hg (rootHeight p desc.ias + 1) base
    (rootLevel (rootHeight p desc.ias + 1)) s hs.rootBits_le
  refine ⟨l, ?_, fun q hq => ?_⟩
  · simp only [valPgtDestroy, hz, if_false, hs.log2PageSize_eq, hg.bits, hs.levels_eq, hs.rootSizeLog2_eq,
      hs.rootBits_eq, hl, State.valMemoryFreePages, List.append_assoc]
  · obtain ⟨b, hb, i, hi, hbit, rfl⟩ := hsource q hq
    exact ⟨b, hb, i, hi, hbit, hg.mask _⟩

include hf hr ha

-- A pass as a fill of the tree.
theorem pass_treeFill (ho : Owned pf p s (rootHeight p desc.ias) base)
    (hp : fillTranslationTable pf (createGlobals pf) fuel
      (rootTtDescriptor (createGlobals pf) p base desc md) md s = some (0, s'))
    (hl : LowPages pf s.allocs s'.allocs) :
    TreeFill pf (createGlobals pf) p md.attributes (regionStart desc md) md.physicalAddress
      (rootHeight p desc.ias) (rootBits p desc.ias) (regionTop desc md) (regionStart desc md)
      (readTree s.mem p (rootHeight p desc.ias) base) s.allocs
      (readTree s'.mem p (rootHeight p desc.ias) base) s'.allocs :=
  fillFrom_treeFill hs.createGranule hf ha (hs.pass_eq hr ▸ hp) hs.rootTt_at (hs.pass_run hr hp) ho hl

theorem pass_grown (ho : Owned pf p s (rootHeight p desc.ias) base)
    (hp : fillTranslationTable pf (createGlobals pf) fuel
      (rootTtDescriptor (createGlobals pf) p base desc md) md s = some (0, s'))
    (hl : LowPages pf s.allocs s'.allocs) : Grown pf p s s' (rootHeight p desc.ias) base :=
  fillFrom_grown hs.createGranule hf ha (hs.pass_eq hr ▸ hp) hs.rootTt_at ho hl

theorem pass_shaped (hsh : Shaped pf p (rootBits p desc.ias) s (rootHeight p desc.ias) base)
    (hp : fillTranslationTable pf (createGlobals pf) fuel
      (rootTtDescriptor (createGlobals pf) p base desc md) md s = some (0, s'))
    (hl : LowPages pf s.allocs s'.allocs) :
    Shaped pf p (rootBits p desc.ias) s' (rootHeight p desc.ias) base := by
  have hfill := hs.pass_treeFill hf hr ha hsh.owned hp hl
  refine ⟨(hs.pass_grown hf hr ha hsh.owned hp hl).owned, ?plain, ?beyond⟩
  case plain => exact hfill.invariant (fun h hp => h.plain hs.createGranule.toGranule hp) hsh.plain
  case beyond => exact fun i hi => (hfill.beyond hi).trans (hsh.beyond i hi)

theorem passes_shaped (hsh : Shaped pf p (rootBits p desc.ias) s (rootHeight p desc.ias) base)
    (hp : Passes pf (createGlobals pf) fuel (rootTtDescriptor (createGlobals pf) p base desc md) md
      n s s')
    (hl : LowPages pf s.allocs s'.allocs) :
    Shaped pf p (rootBits p desc.ias) s' (rootHeight p desc.ias) base ∧
    Grown pf p s s' (rootHeight p desc.ias) base := by
  induction hp
  case done => exact ⟨hsh, .refl hsh.owned⟩
  case pass s s₁ n s' hfill hp ih =>
    have hl₁ := hl.mono le_rfl hp.allocs_le
    have hgr := hs.pass_grown hf hr ha hsh.owned hfill hl₁
    have ⟨hsh', hgr'⟩ := ih (hs.pass_shaped hf hr ha hsh hfill hl₁) (hl.mono hgr.allocs le_rfl)
    exact ⟨hsh', hgr.trans hgr'⟩

-- A pass over a tidy table loses no page.
theorem pass_complete (hsh : Shaped pf p (rootBits p desc.ias) s (rootHeight p desc.ias) base)
    (hm : m ≤ s.allocs) (hc : Complete pf p m s (rootHeight p desc.ias) base)
    (ht : ∀ i < 2 ^ (p - 3), Tidy p (regionStart desc md) md.physicalAddress (rootHeight p desc.ias)
      (readTree s.mem p (rootHeight p desc.ias) base i))
    (hp : fillTranslationTable pf (createGlobals pf) fuel
      (rootTtDescriptor (createGlobals pf) p base desc md) md s = some (0, s'))
    (hl : LowPages pf s.allocs s'.allocs) :
    Complete pf p m s' (rootHeight p desc.ias) base ∧
    (Whole p (regionStart desc md) md.physicalAddress (rootHeight p desc.ias) (regionStart desc md)
      (regionTop desc md) → ∀ i < 2 ^ (p - 3), Tidy p (regionStart desc md) md.physicalAddress
        (rootHeight p desc.ias) (readTree s'.mem p (rootHeight p desc.ias) base i)) := by
  have hgr := hs.pass_grown hf hr ha hsh.owned hp hl
  have ⟨hk, htidy⟩ := (hs.pass_treeFill hf hr ha hsh.owned hp hl).keeps
    hs.createGranule.toGranule hs.rootBits_le
    (fun h hlt hst ht hp hl => h.keeps hs.createGranule.toGranule hf hs.height_lt hlt hst ht hp hl)
    ⟨0, by simp⟩ ht hsh.plain hl
  refine ⟨fun q => ⟨fun hq => ?_, ?_⟩, htidy⟩
  case refine_1 =>
    rcases hgr.pages q hq with hq | ⟨k, h₁, h₂, rfl, _⟩
    case inl =>
      obtain ⟨k, h₁, h₂, rfl⟩ := (hc q).mp hq
      exact ⟨k, h₁, h₂.trans_le hgr.allocs, rfl⟩
    case inr => exact ⟨k, hm.trans h₁, h₂, rfl⟩
  case refine_2 =>
    rintro ⟨k, h₁, h₂, rfl⟩
    by_cases hlt : k < s.allocs
    case pos => exact hk.old _ <| (hc _).mpr ⟨k, h₁, hlt, rfl⟩
    case neg => exact hk.new k (Nat.not_lt.mp hlt) h₂

-- If the region consists of whole blocks, the table stays tidy from pass to pass.
theorem whole_passes_complete
    (hw : Whole p (regionStart desc md) md.physicalAddress (rootHeight p desc.ias)
      (regionStart desc md) (regionTop desc md))
    (hp : Passes pf (createGlobals pf) fuel (rootTtDescriptor (createGlobals pf) p base desc md) md
      n s s')
    (hsh : Shaped pf p (rootBits p desc.ias) s (rootHeight p desc.ias) base)
    (hm : m ≤ s.allocs) (hc : Complete pf p m s (rootHeight p desc.ias) base)
    (ht : ∀ i < 2 ^ (p - 3), Tidy p (regionStart desc md) md.physicalAddress (rootHeight p desc.ias)
      (readTree s.mem p (rootHeight p desc.ias) base i))
    (hl : LowPages pf s.allocs s'.allocs) : Complete pf p m s' (rootHeight p desc.ias) base := by
  induction hp
  case done => exact hc
  case pass s s₁ n s' hfill hp ih =>
    have hl₁ := hl.mono le_rfl hp.allocs_le
    have hle := fillFrom_allocs_le hfill
    have ⟨hc₁, ht₁⟩ := hs.pass_complete hf hr ha hsh hm hc ht hfill hl₁
    have hsh₁ := hs.pass_shaped hf hr ha hsh hfill hl₁
    exact ih hsh₁ (hm.trans hle) hc₁ (ht₁ hw) (hl.mono hle le_rfl)

-- The table holds every page that was obtained for it, unless a later pass has dropped some.
theorem passes_complete_iff (hz : pf.page s.allocs ≠ 0)
    (hp : Passes pf (createGlobals pf) fuel (rootTtDescriptor (createGlobals pf) p
      (pf.page s.allocs) desc md) md (n + 1) (rootState pf s) s')
    (hl : LowPages pf (s.allocs + 1) s'.allocs) :
    Complete pf p (s.allocs + 1) s' (rootHeight p desc.ias) (pf.page s.allocs) ↔
    n = 0 ∨ regionTop desc md ≤ regionStart desc md + 2 ^ desc.ias ∨
      Whole p (regionStart desc md) md.physicalAddress (rootHeight p desc.ias) (regionStart desc md)
        (regionTop desc md) := by
  have hsh := hs.rootState_shaped hz
  have htidy : ∀ i < 2 ^ (p - 3), Tidy p (regionStart desc md) md.physicalAddress
      (rootHeight p desc.ias) (readTree (rootState pf s).mem p (rootHeight p desc.ias)
        (pf.page s.allocs) i) :=
    fun _ _ => by rw [hs.rootState_empty]; exact tidy_empty
  have first : ∀ {s₁}, fillTranslationTable pf (createGlobals pf) fuel (rootTtDescriptor
      (createGlobals pf) p (pf.page s.allocs) desc md) md (rootState pf s) = some (0, s₁) →
      LowPages pf (s.allocs + 1) s₁.allocs →
      Complete pf p (s.allocs + 1) s₁ (rootHeight p desc.ias) (pf.page s.allocs) :=
    fun hfill hl => (hs.pass_complete hf hr ha hsh le_rfl hs.rootState_complete htidy hfill hl).left
  constructor
  case mpr =>
    rintro (rfl | hk | hw)
    case inl =>
      cases hp
      case pass hfill hp =>
        cases hp
        exact first hfill hl
    case inr.inl => exact first (hs.passes_built hr hf ha hz hk hp hl).right hl
    case inr.inr => exact hs.whole_passes_complete hf hr ha hw hp hsh le_rfl hs.rootState_complete htidy hl
  case mp =>
    intro hc
    by_contra hcond
    obtain ⟨hn, hk, hw⟩ : n ≠ 0 ∧ regionStart desc md + 2 ^ desc.ias < regionTop desc md ∧ _ := by
      simpa [not_or] using hcond
    cases hp
    case pass s₁ hfill₁ hp =>
      cases hp
      case done => exact hn rfl
      case pass s₂ n hfill₂ hp =>
        have hle₁ := fillFrom_allocs_le hfill₁
        have hle₂ := fillFrom_allocs_le hfill₂
        have hl₁ := hl.mono le_rfl (hle₂.trans hp.allocs_le)
        have hl₂ := hl.mono hle₁ hp.allocs_le
        have hsh₁ := hs.pass_shaped hf hr ha hsh hfill₁ hl₁
        have hsh₂ := hs.pass_shaped hf hr ha hsh₁ hfill₂ hl₂
        obtain ⟨q, hq₁, hq₂⟩ := TreeFill.second_drops hs.createGranule.toGranule hf hs.rootBits_le
          hs.height_lt (hs.pass_treeFill hf hr ha hsh.owned hfill₁ hl₁)
          (hs.pass_treeFill hf hr ha hsh₁.owned hfill₂ hl₂) (by rw [hs.rootBits_span]; exact hk) hw
          hsh₁.plain hl₂ (List.nodup_cons.mp hsh₁.owned.nodup).right hsh₁.owned.pages
        -- A dropped page does not come back.
        have hgr := (hs.passes_shaped hf hr ha hsh₂ hp (hl.mono (hle₁.trans hle₂) le_rfl)).right
        obtain ⟨k, h₁, h₂, rfl⟩ := (first hfill₁ hl₁ q).mp hq₁
        have hq' := (hc (pf.page k)).mpr ⟨k, h₁, h₂.trans_le (hle₂.trans hp.allocs_le), rfl⟩
        rcases hgr.pages _ hq' with hq' | hq'
        case inl => exact hq₂ hq'
        case inr => exact hf.not_allocated hq' ((hsh₁.owned.pages _ hq₁).mono hle₂)

end Setting

-- `val_pgt_destroy` frees each page that `val_pgt_create` obtained, once, and nothing else.
def FreesExactly (pf : Platform) (s s' s'' : State) : Prop :=
  ∃ l, s''.freed = s'.freed ++ l ∧ l.Nodup ∧
    ∀ q, q ∈ l ↔ ∃ k, s.allocs ≤ k ∧ k < s'.allocs ∧ q = pf.page k

-- No block descriptor of the first region is taken for that of a table: the attributes leave the bit for the type
-- alone, or the region has no block.
def ReadsTypes (p : Nat) (desc : PgtDescriptor) : List MemoryRegionDescriptor → Prop
  | [] => True
  | r :: _ => r.attributes.testBit 1 = false ∨
      ¬HasBlock p (rootHeight p desc.ias) (regionStart desc r) r.physicalAddress (regionTop desc r)

-- The attributes of the first region do not reach into the upper half of the address.
def KeepsAddresses : List MemoryRegionDescriptor → Prop
  | [] => True
  | r :: _ => KeepsAddress r

-- No pass of the call writes a block where an earlier one has left a table: there is one pass only,
-- or the region is no longer than the table, or it consists of whole blocks.
def KeepsTables (p : Nat) (desc : PgtDescriptor) : List MemoryRegionDescriptor → Prop
  | [] => True
  | r :: rest => rest = [] ∨ regionTop desc r ≤ regionStart desc r + 2 ^ desc.ias ∨
      Whole p (regionStart desc r) r.physicalAddress (rootHeight p desc.ias) (regionStart desc r)
        (regionTop desc r)

section

variable {pf : Platform} {p : Nat} {desc : PgtDescriptor} {rs : List MemoryRegionDescriptor}
  (hs : Setting pf p desc) (hf : PageAllocator pf p) (hl : ∀ r ∈ rs, r.length ≠ 0)

include hs

-- The pages of a table that `val_pgt_destroy` recognises are freed exactly if none is missing.
theorem freesExactly_iff {s s' : State} (hf : PageAllocator pf p)
    (hsh : Shaped pf p (rootBits p desc.ias) s' (rootHeight p desc.ias) (pf.page s.allocs))
    (hz : pf.page s.allocs ≠ 0) (hle : s.allocs < s'.allocs)
    (hq : ∀ k, s.allocs < k → k < s'.allocs → pf.page k < 2 ^ desc.ias)
    (hpg : ∀ q ∈ tablePages p (rootHeight p desc.ias)
      (readTree s'.mem p (rootHeight p desc.ias) (pf.page s.allocs)),
      ∃ k, s.allocs < k ∧ k < s'.allocs ∧ q = pf.page k) :
    FreesExactly pf s s' (valPgtDestroy pf { desc with pgtBase := pf.page s.allocs } s') ↔
    Complete pf p (s.allocs + 1) s' (rootHeight p desc.ias) (pf.page s.allocs) := by
  have hfreed := hs.valPgtDestroy_eq hsh hz fun q hm => by
    obtain ⟨k, h₁, h₂, rfl⟩ := hpg q hm
    exact hq k h₁ h₂
  have hnd : (tablePages p (rootHeight p desc.ias)
      (readTree s'.mem p (rootHeight p desc.ias) (pf.page s.allocs)) ++ [pf.page s.allocs]).Nodup :=
    List.nodup_append_comm.mp hsh.owned.nodup
  constructor
  case mp =>
    rintro ⟨l, hl, _, hmem⟩ q
    obtain rfl : l = _ := List.append_cancel_left (hl.symm.trans hfreed)
    refine ⟨hpg q, ?_⟩
    rintro ⟨k, h₁, h₂, rfl⟩
    have hk := (hmem (pf.page k)).mpr ⟨k, by omega, h₂, rfl⟩
    rw [List.mem_append, List.mem_singleton] at hk
    refine hk.resolve_right fun he => ?_
    have := hf.fresh _ _ he.symm hz
    omega
  case mpr =>
    intro hc
    refine ⟨_, hfreed, hnd, fun q => ?_⟩
    rw [List.mem_append, List.mem_singleton, hc q]
    constructor
    case mp =>
      rintro (⟨k, h₁, h₂, rfl⟩ | rfl)
      case inl => exact ⟨k, by omega, h₂, rfl⟩
      case inr => exact ⟨s.allocs, le_rfl, hle, rfl⟩
    case mpr =>
      rintro ⟨k, h₁, h₂, rfl⟩
      rcases Nat.eq_or_lt_of_le h₁ with rfl | h₁
      case inl => exact .inr rfl
      case inr => exact .inl ⟨k, h₁, h₂, rfl⟩

-- The call succeeded, so its root is a page.
theorem create_root (hl : ∀ r ∈ rs, r.length ≠ 0) (hc : valPgtCreate pf fuel rs desc s = some res)
    (h0 : res.status = 0) : pf.page s.allocs ≠ 0 ∧
    res.pgtDesc = { desc with pgtBase := pf.page s.allocs } ∧ s.allocs < res.state.allocs := by
  cases rs
  case nil =>
    by_cases hz : pf.page s.allocs = 0
    case pos =>
      simp only [valPgtCreate, State.valMemoryAllocPages, hz, if_true] at hc
      cases hc
      exact absurd h0 acsStatusErr_ne_zero
    case neg =>
      rw [hs.valPgtCreate_eq hz] at hc
      cases hc
      exact ⟨hz, rfl, Nat.lt_succ_self _⟩
  case cons r rest =>
    obtain ⟨hz, _, _, s', hp, rfl⟩ := (hs.valPgtCreate_success_iff hl).mp ⟨hc, h0⟩
    exact ⟨hz, rfl, hp.allocs_le⟩

include hl

-- The passes of a successful call, over a region whose attributes leave the type alone.
theorem create_passes {r : MemoryRegionDescriptor} {rest : List MemoryRegionDescriptor} (hrs : rs = r :: rest)
    (hc : valPgtCreate pf fuel rs desc s = some res) (h0 : res.status = 0) (ht : ReadsTypes p desc rs) :
    ∃ md, ¬Rejects pf desc md ∧ md.attributes.testBit 1 = false ∧ (KeepsAddress r → KeepsAddress md) ∧
      regionStart desc md = regionStart desc r ∧ regionTop desc md = regionTop desc r ∧
      md.physicalAddress = r.physicalAddress ∧
      Passes pf (createGlobals pf) fuel (rootTtDescriptor (createGlobals pf) p (pf.page s.allocs) desc md) md
        (rest.length + 1) (Setting.rootState pf s) res.state := by
  subst hrs
  obtain ⟨hz, hr, _, s', hp, rfl⟩ := (hs.valPgtCreate_success_iff hl).mp ⟨hc, h0⟩
  have hr := mt hs.rejects_truncateInput.mp hr
  have hphys : (truncateInput desc.ias r).physicalAddress = r.physicalAddress := by rw [Setting.truncateInput_eq]
  have hattr : (truncateInput desc.ias r).attributes = r.attributes := by rw [Setting.truncateInput_eq]
  have hkeep : KeepsAddress r → KeepsAddress (truncateInput desc.ias r) := by
    rw [KeepsAddress, KeepsAddress, hattr]
    exact id
  rcases ht with hbit | hno
  case inl =>
    exact ⟨_, hr, hattr ▸ hbit, hkeep, regionStart_truncateInput, regionTop_truncateInput, hphys, hp⟩
  case inr =>
    rw [← regionStart_truncateInput, ← regionTop_truncateInput, ← hphys] at hno
    exact ⟨typed (truncateInput desc.ias r), hr, typed_testBit, fun h => (hkeep h).typed, regionStart_truncateInput, regionTop_truncateInput, hphys,
      hs.passes_typed hr hno hp⟩

-- All words in its pages are short.
theorem create_short (hc : valPgtCreate pf fuel rs desc s = some res) (h0 : res.status = 0)
    (ht : ReadsTypes p desc rs) (hk : KeepsAddresses rs) : ShortPages pf p s.allocs res.state := by
  have hroot : ShortPages pf p s.allocs (Setting.rootState pf s) := by
    have hnone : ShortPages pf p s.allocs s := fun k h₁ h₂ => absurd h₂ (Nat.not_lt.mpr h₁)
    exact hnone.fresh hs.createGranule.toGranule
  cases rs
  case nil =>
    have hz := (create_root hs hl hc h0).left
    rw [hs.valPgtCreate_eq hz] at hc
    cases hc
    exact hroot
  case cons r rest =>
    obtain ⟨md, hr, ha, hkeep, _, _, _, hp⟩ := create_passes hs hl rfl hc h0 ht
    have hpasses : ∀ {n s₁ s₂}, Passes pf (createGlobals pf) fuel (rootTtDescriptor (createGlobals pf) p
        (pf.page s.allocs) desc md) md n s₁ s₂ → ShortPages pf p s.allocs s₁ → ShortPages pf p s.allocs s₂ := by
      intro n s₁ s₂ hp
      induction hp
      case done => exact id
      case pass hfill _ ih =>
        rw [hs.pass_eq hr] at hfill
        exact fun h => ih (h.fill hs.createGranule.toGranule ha (hkeep hk) hfill hs.rootTt_at)
    exact hpasses hp hroot

include hf

-- The table that a successful call leaves behind.
theorem create_shaped (hc : valPgtCreate pf fuel rs desc s = some res) (h0 : res.status = 0)
    (ht : ReadsTypes p desc rs) (hlow : LowPages pf (s.allocs + 1) res.state.allocs) :
    Shaped pf p (rootBits p desc.ias) res.state (rootHeight p desc.ias) (pf.page s.allocs) ∧
    Grown pf p (Setting.rootState pf s) res.state (rootHeight p desc.ias) (pf.page s.allocs) ∧
    (Complete pf p (s.allocs + 1) res.state (rootHeight p desc.ias) (pf.page s.allocs) ↔
      KeepsTables p desc rs) := by
  have hz := (create_root hs hl hc h0).left
  cases rs
  case nil =>
    rw [hs.valPgtCreate_eq hz] at hc
    cases hc
    exact ⟨hs.rootState_shaped hz, .refl (hs.rootState_owned hz), fun _ => trivial,
      fun _ => hs.rootState_complete⟩
  case cons r rest =>
    obtain ⟨md, hr, ha, _, hstart, htop, hphys, hp⟩ := create_passes hs hl rfl hc h0 ht
    have ⟨hsh, hgr⟩ := hs.passes_shaped hf hr ha (hs.rootState_shaped hz) hp hlow
    have hiff := hs.passes_complete_iff hf hr ha hz hp hlow
    rw [hstart, htop, hphys] at hiff
    refine ⟨hsh, hgr, hiff.trans ?_⟩
    rw [KeepsTables, List.length_eq_zero_iff]

end

section

variable {pf : Platform} {p : Nat} {desc : PgtDescriptor} {rs : List MemoryRegionDescriptor} {s : State}
  {res : CreateResult} (hs : Setting pf p desc) (hf : PageAllocator pf p) (hl : ∀ r ∈ rs, r.length ≠ 0)
  (hc : valPgtCreate pf fuel rs desc s = some res) (h0 : res.status = 0)
  (hfree : FreesExactly pf s res.state (valPgtDestroy pf { desc with pgtBase := pf.page s.allocs } res.state))

include hs hf hl hc h0 hfree

-- Where each page comes from, if all of them are freed.
theorem freesExactly_source : ∀ k, s.allocs < k → k < res.state.allocs →
    ∃ j, s.allocs ≤ j ∧ j < res.state.allocs ∧ ∃ i < 2 ^ (p - 3),
      (res.state.mem (pf.page j + 8 * i)).testBit 1 = true ∧
      pf.page k = Bits.slice (desc.ias - 1) p (res.state.mem (pf.page j + 8 * i)) := by
  intro k h₁ h₂
  have ⟨hz, _, hle⟩ := create_root hs hl hc h0
  obtain ⟨l, hfreed, _, hmem⟩ := hfree
  obtain ⟨l', hfreed', hsource⟩ := hs.valPgtDestroy_source hz (s := res.state)
  obtain rfl := List.append_cancel_left (hfreed.symm.trans hfreed')
  have hk := (hmem _).mpr ⟨k, h₁.le, h₂, rfl⟩
  rw [List.mem_append, List.mem_singleton] at hk
  have hk := hk.resolve_right fun he => by
    have := hf.fresh _ _ he.symm hz
    omega
  obtain ⟨b, hb, i, hi, hbit, he⟩ := hsource _ hk
  rcases List.mem_cons.mp hb with rfl | hb
  case inl => exact ⟨s.allocs, le_rfl, hle, i, hi, hbit, he⟩
  case inr =>
    obtain ⟨j, hj₁, hj₂, rfl⟩ := (hmem b).mp (List.mem_append_left _ hb)
    exact ⟨j, hj₁, hj₂, i, hi, hbit, he⟩

theorem freesExactly_input : ∀ k, s.allocs < k → k < res.state.allocs → pf.page k < 2 ^ desc.ias := by
  intro k h₁ h₂
  have hi := hs.input
  obtain ⟨_, _, _, _, _, _, he⟩ := freesExactly_source hs hf hl hc h0 hfree k h₁ h₂
  rw [he]
  exact (Bits.slice_lt (by omega)).trans_le (Nat.pow_le_pow_right two_pos (by omega))

theorem freesExactly_low (ht : ReadsTypes p desc rs) (hk : KeepsAddresses rs)
    (h48 : ∀ k, s.allocs < k → k < res.state.allocs → pf.page k < 2 ^ 48) :
    LowPages pf (s.allocs + 1) res.state.allocs := by
  intro k h₁ h₂
  have hi := hs.input
  have hlo := hs.lo
  obtain ⟨j, hj₁, hj₂, i, hi', hbit, he⟩ := freesExactly_source hs hf hl hc h0 hfree k h₁ h₂
  have hshort := create_short hs hl hc h0 ht hk j hj₁ hj₂ _ (inPage_entry (by omega) hi')
  rw [he]
  exact slice_lt_of_short hshort hbit (by omega) (he ▸ h48 k h₁ h₂) hs.hi

end

-- After a successful `val_pgt_create`, `val_pgt_destroy` frees the pages of the call exactly when
-- both masks recognise all of them and no pass has dropped some.
theorem create_destroy_frees_iff (pf : Platform) (p : Nat) (desc : PgtDescriptor)
    (rs : List MemoryRegionDescriptor) (s : State) (fuel : Nat) (res : CreateResult)
    (hs : Setting pf p desc) (hf : PageAllocator pf p) (hl : ∀ r ∈ rs, r.length ≠ 0)
    (hc : valPgtCreate pf fuel rs desc s = some res) (h0 : res.status = 0)
    (h48 : ∀ k, s.allocs < k → k < res.state.allocs → pf.page k < 2 ^ 48) :
    (FreesExactly pf s res.state (valPgtDestroy pf res.pgtDesc res.state) →
      ∀ k, s.allocs < k → k < res.state.allocs → pf.page k < 2 ^ desc.ias) ∧
    (ReadsTypes p desc rs →
      (desc.ias ≤ 32 ∨ KeepsAddresses rs ∨ LowPages pf (s.allocs + 1) res.state.allocs) →
      (FreesExactly pf s res.state (valPgtDestroy pf res.pgtDesc res.state) ↔
        (∀ k, s.allocs < k → k < res.state.allocs → pf.page k < 2 ^ desc.ias ∧ pf.page k < 2 ^ 32) ∧
        KeepsTables p desc rs)) := by
  have ⟨hz, hd, hle⟩ := create_root hs hl hc h0
  rw [hd]
  refine ⟨freesExactly_input hs hf hl hc h0, fun ht haddr => ?_⟩
  have hiff (hlow : LowPages pf (s.allocs + 1) res.state.allocs)
      (hin : ∀ k, s.allocs < k → k < res.state.allocs → pf.page k < 2 ^ desc.ias) :
      FreesExactly pf s res.state (valPgtDestroy pf { desc with pgtBase := pf.page s.allocs } res.state) ↔
        KeepsTables p desc rs := by
    have ⟨hsh, hgr, hiff⟩ := create_shaped hs hf hl hc h0 ht hlow
    refine (freesExactly_iff hs hf hsh hz hle hin fun q hq => ?_).trans hiff
    rcases hgr.pages q hq with hq | ⟨k, h₁, h₂, rfl, _⟩
    case inl =>
      rw [hs.rootState_empty, tablePages_empty] at hq
      contradiction
    case inr => exact ⟨k, h₁, h₂, rfl⟩
  constructor
  case mp =>
    intro hfree
    have hin := freesExactly_input hs hf hl hc h0 hfree
    have hlow : LowPages pf (s.allocs + 1) res.state.allocs := by
      rcases haddr with hias | hk | hlow
      case inl =>
        exact fun k h₁ h₂ => (hin k h₁ h₂).trans_le (Nat.pow_le_pow_right two_pos hias)
      case inr.inl => exact freesExactly_low hs hf hl hc h0 hfree ht hk h48
      case inr.inr => exact hlow
    exact ⟨fun k h₁ h₂ => ⟨hin k h₁ h₂, hlow k h₁ h₂⟩, (hiff hlow hin).mp hfree⟩
  case mpr =>
    rintro ⟨hpages, hkeep⟩
    exact (hiff (fun k h₁ h₂ => (hpages k h₁ h₂).right) fun k h₁ h₂ => (hpages k h₁ h₂).left).mpr hkeep

-- Pages from 2 GB on, with a table for 22 bits of input address.
def highPlatform : Platform where
  pageSize := 0x1000
  page k   := 0x80000000 + 0x1000 * k

-- The table page 0x80001000 is not freed, and 0x1000 is freed in its place. On a platform with low
-- pages, a second pass over a region of 4 MB and one page drops the table page 0x2000.
theorem create_destroy_high_page :
    (∃ res, valPgtCreate highPlatform 20 [⟨0x80000000, 0, 0x1000, 0x400⟩] (smallDesc 22) emptyState =
        some res ∧
      res.status = 0 ∧ res.state.allocs = 2 ∧
      (valPgtDestroy highPlatform res.pgtDesc res.state).freed = [0x1000, 0x80000000] ∧
      ¬FreesExactly highPlatform emptyState res.state
        (valPgtDestroy highPlatform res.pgtDesc res.state)) ∧
    ∃ res, valPgtCreate linearPlatform 20 [⟨0x80000000, 0, 0x401000, 0x400⟩,
        ⟨0x80000000, 0, 0x1000, 0x400⟩] (smallDesc 22) emptyState = some res ∧
      res.status = 0 ∧ res.state.allocs = 3 ∧
      (valPgtDestroy linearPlatform res.pgtDesc res.state).freed = [0x3000, 0x1000] := by
  refine ⟨⟨_, rfl, rfl, rfl, rfl, ?_⟩, _, rfl, rfl, rfl, rfl⟩
  rintro ⟨l, hfreed, _, hmem⟩
  obtain rfl : l = [0x1000, 0x80000000] := hfreed.symm
  exact absurd ((hmem 0x80001000).mpr ⟨1, by decide, by decide, rfl⟩) (by decide)

-- One page with attribute bit 1 set: it is no block.
theorem create_destroy_frees_single_region : ∃ res,
    valPgtCreate linearPlatform 20 [⟨0x80000000, 0x200000, 0x1000, 0x402⟩] (smallDesc 32) emptyState =
      some res ∧ ReadsTypes 12 (smallDesc 32) [⟨0x80000000, 0x200000, 0x1000, 0x402⟩] ∧
    FreesExactly linearPlatform emptyState res.state (valPgtDestroy linearPlatform res.pgtDesc res.state) := by
  have ht : ReadsTypes 12 (smallDesc 32) [⟨0x80000000, 0x200000, 0x1000, 0x402⟩] := by
    refine .inr ?_
    rintro ⟨_, _, _, hlong⟩
    exact absurd hlong (by decide)
  have hpage (k : Nat) (hk : k < 3) : linearPlatform.page k < 2 ^ 32 := by
    simp only [linearPlatform]
    omega
  refine ⟨_, rfl, ht, ?_⟩
  refine ((create_destroy_frees_iff linearPlatform 12 (smallDesc 32)
    [⟨0x80000000, 0x200000, 0x1000, 0x402⟩] emptyState 20 _
    (linearPlatform_setting (by decide) (by decide)) linearPlatform_allocator (by decide) rfl rfl
    fun k _ hk => (hpage k hk).trans (by decide)).right ht (.inl (by decide))).mpr ⟨?_, .inl rfl⟩
  exact fun k _ hk => ⟨hpage k hk, hpage k hk⟩

end Pgt
