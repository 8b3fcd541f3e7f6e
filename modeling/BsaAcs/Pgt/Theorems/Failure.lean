import BsaAcs.Pgt.Theorems.Destroy

namespace Pgt

-- What a failed `val_pgt_create` leaves behind. A nested call that fails frees the table it was given
-- to fill, but not the tables that were completed before.

-- The condition under which the loop writes a block, on the addresses alone.
def WritesBlock (p h ia oa top : Nat) : Prop :=
  blockBytes p h ∣ ia ∧ blockBytes p h ∣ oa ∧ (ia + blockBytes p h - 1) % 2 ^ 64 ≤ top

instance : Decidable (WritesBlock p h ia oa top) :=
  inferInstanceAs (Decidable (_ ∧ _ ∧ _))

def nextStop (p h x : Nat) : Nat :=
  (x + blockBytes p h) % 2 ^ 64

-- The end of the range that a turn of the loop hands to the next level.
def nestedTop (p h ia top : Nat) : Nat :=
  min top ((ia + blockBytes p h - 1) % 2 ^ 64)

-- Somewhere below the table, the loop has `n` nested tables open.
inductive Reaches (p : Nat) : Nat → Nat → Nat → Nat → Nat → Prop
  | none : Reaches p h ia oa top 0
  | later (hlt : ia < top) (hr : Reaches p h (nextStop p h ia) (nextStop p h oa) top n) :
    Reaches p h ia oa top n
  | table (hlt : ia < top) (hb : ¬WritesBlock p (h + 1) ia oa top)
    (hr : Reaches p h ia oa (nestedTop p (h + 1) ia top) n) : Reaches p (h + 1) ia oa top (n + 1)

namespace TtDescriptor.At

variable {tt : TtDescriptor} {p h nbits base top ia oa : Nat} (ht : tt.At p h nbits base top)

include ht

theorem writesBlock_iff : tt.blockEligible ia oa = true ↔ WritesBlock p h ia oa top :=
  ht.blockEligible_iff

theorem nextAddress_eq : nextAddress tt x = nextStop p h x := by
  rw [nextAddress, ht.blockSize_eq, nextStop]

end TtDescriptor.At

section

variable {pf : Platform} {g : Globals} {md : MemoryRegionDescriptor}

section Turn

variable {tt : TtDescriptor} (hlt : ia < tt.inputTop) (hl : tt.level ≠ 3)

include hlt hl

end Turn

section Nested

variable {p : Nat} (hg : CreateGranule g p) (ha : md.attributes.testBit 1 = false)

include hg

include ha

end Nested

-- The calls of the allocator from `m` up to `n` succeed.
structure Served (pf : Platform) (m n : Nat) : Prop where
  le   : m ≤ n
  page : ∀ k, m ≤ k → k < n → pf.page k ≠ 0

theorem Served.refl : Served pf m m :=
  ⟨le_rfl, fun _ h₁ h₂ => absurd (h₁.trans_lt h₂) (lt_irrefl _)⟩

theorem Served.trans (h₁ : Served pf l m) (h₂ : Served pf m n) : Served pf l n := by
  refine ⟨h₁.le.trans h₂.le, fun k hl hn => ?_⟩
  by_cases hm : k < m
  case pos => exact h₁.page k hl hm
  case neg => exact h₂.page k (Nat.not_lt.mp hm) hn

theorem nextTable_served {s s₁ : State} (hn : s.nextTable pf g w = (some q, s₁)) :
    Served pf s.allocs s₁.allocs ∧ s₁.freed = s.freed := by
  rcases nextTable_cases hn with ⟨_, rfl, hz, rfl⟩ | ⟨_, _, _, rfl⟩
  case inl =>
    refine ⟨⟨Nat.le_succ _, fun k h₁ h₂ => ?_⟩, rfl⟩
    obtain rfl : k = s.allocs := Nat.le_antisymm (Nat.lt_succ_iff.mp h₂) h₁
    exact hz
  case inr => exact ⟨.refl, rfl⟩

-- A call that succeeds frees nothing, and every allocation that it makes succeeds.
theorem fillFrom_served (hf : fillFrom pf g md fuel tt ia oa s = some (0, s')) :
    Served pf s.allocs s'.allocs ∧ s'.freed = s.freed := by
  induction fuel generalizing tt ia oa s s'
  case zero => simp [fillFrom] at hf
  case succ fuel ih =>
    rcases fillFrom_success_iff.mp hf with ⟨_, rfl⟩ | ⟨_, s₁, hv, hr⟩
    case inl => exact ⟨.refl, rfl⟩
    case inr =>
      obtain ⟨hs, hfr⟩ := ih hr
      cases hv
      case page | block => exact ⟨hs, hfr⟩
      case table hl he hn hf₂ =>
        obtain ⟨hs₁, hfr₁⟩ := nextTable_served hn
        obtain ⟨hs₂, hfr₂⟩ := ih hf₂
        exact ⟨(hs₁.trans hs₂).trans hs, hfr.trans (hfr₂.trans hfr₁)⟩

-- The first pass over a range that does not wrap: each slot is empty when the loop comes to it.
section FirstPass

-- The slots that the loop still has to visit hold no table.
def Clear (p h nbits base ia top : Nat) (s : State) : Prop :=
  ∀ x, Visits p h ia top x → (s.mem (base + 8 * slotIndex p h nbits x)).testBit 1 = false

-- The word belongs to no page of the calls from `m` up to `n`.
def Apart (pf : Platform) (p m n a : Nat) : Prop :=
  ∀ k, m ≤ k → k < n → ¬InPage p (pf.page k) a

theorem Apart.mono (h : Apart pf p m n a) (hm : m ≤ m') (hn : n' ≤ n) : Apart pf p m' n' a :=
  fun k h₁ h₂ => h k (hm.trans h₁) (h₂.trans_le hn)

variable {p : Nat} (hg : CreateGranule g p) (hf : PageAllocator pf p)

include hg hf

-- An entry of an allocated page lies in no page that is allocated later.
theorem entry_apart (ho : Allocated pf m base) (hi : i < 2 ^ (p - 3)) (hs : Served pf m n) :
    Apart pf p m n (base + 8 * i) := by
  intro k h₁ h₂ hk
  have hlo := hg.lo
  have hfresh : Fresh pf m n (pf.page k) := ⟨k, h₁, h₂, rfl, hs.page k h₁ h₂⟩
  have hne : base ≠ pf.page k := fun h => hf.not_allocated hfresh (h ▸ ho)
  exact hf.disjoint ho hfresh.allocated hne (inPage_entry (by omega) hi) hk

-- The slots that are still to be visited stay clear if a turn leaves them alone.
theorem Clear.step (hc : Clear p h nbits base ia top s) (hlt : ia < top)
    (hk : top ≤ ia + 2 ^ nbits * blockBytes p h) (hn : nbits ≤ p - 3) (ho : Allocated pf s.allocs base)
    (hs : Served pf s.allocs s'.allocs)
    (hturn : ∀ a, a ≠ base + 8 * slotIndex p h nbits ia → Apart pf p s.allocs s'.allocs a →
      s'.mem a = s.mem a) :
    Clear p h nbits base (ia + blockBytes p h) top s' := by
  intro x hx
  have hi : slotIndex p h nbits x < 2 ^ (p - 3) :=
    slotIndex_lt.trans_le <| Nat.pow_le_pow_right (by omega) hn
  have hne : slotIndex p h nbits x ≠ slotIndex p h nbits ia := by
    intro he
    have := hx.tail.unique hk (.first hlt) he
    have := hx.le
    have := blockBytes_pos (p := p) (h := h)
    omega
  rw [hturn _ (by omega) (entry_apart hg hf ho hi hs)]
  exact hc x hx.tail

-- The loop is about to visit the table at `base` from `ia` on for the first time.
structure Pristine (pf : Platform) (p h nbits base ia top : Nat) (s : State) : Prop where
  run   : Run p h 0 ia top
  span  : top ≤ ia + 2 ^ nbits * blockBytes p h
  clear : Clear p h nbits base ia top s
  owned : Allocated pf s.allocs base

-- The table that a turn opens in a pristine table is a new one.
omit hg hf in
theorem Pristine.nextTable (hp : Pristine pf p h nbits base ia top s) (hlt : ia < top)
    (hn : s.nextTable pf g (s.mem (base + 8 * slotIndex p h nbits ia)) = (some q, s₁)) :
    q = pf.page s.allocs ∧ pf.page s.allocs ≠ 0 ∧
    s₁ = { s with mem := s.mem.set q g.pageSize 0, allocs := s.allocs + 1 } := by
  have hw := hp.clear ia (.first hlt)
  rcases nextTable_cases hn with ⟨_, rfl, hz, rfl⟩ | ⟨_, hb, _, _⟩
  case inl => exact ⟨rfl, hz, rfl⟩
  case inr => simp [hw] at hb

-- A turn that obtains no page writes a page or a block descriptor.
omit hf in
theorem Visit.leaf (hv : Visit pf g md fuel tt ia oa s s₁) (ht : tt.At p h nbits base top)
    (hp : Pristine pf p h nbits base ia top s) (hlt : ia < top) (ha : s₁.allocs = s.allocs) :
    h = 0 ∨ ∃ n, h = n + 1 ∧ WritesBlock p (n + 1) ia oa top := by
  have hlo := hg.lo
  cases hv
  case page hl => exact .inl <| (ht.level_eq_three_iff hlo).mp hl
  case block hl he =>
    obtain ⟨h, rfl⟩ := ht.exists_height hlo hl
    exact .inr ⟨h, rfl, ht.writesBlock_iff.mp he⟩
  case table q s₁ s₂ hl he hn hfill =>
    rw [ht.tableDesc_eq] at hn
    obtain ⟨_, _, rfl⟩ := hp.nextTable hlt hn
    have : s.allocs + 1 ≤ s₂.allocs := (fillFrom_served hfill).left.le
    have ha : s₂.allocs = s.allocs := ha
    omega

end FirstPass

end

-- The pages of the calls from `m` up to the one that fails.
section Pages

variable {pf : Platform} (hf : PageAllocator pf p) (hs : Served pf m (m + n))

include hf hs

end Pages

namespace Setting

variable {pf : Platform} {p : Nat} {desc : PgtDescriptor} {md : MemoryRegionDescriptor}
  (hs : Setting pf p desc) (hr : ¬Rejects pf desc md)

include hr

include hs

variable (hf : PageAllocator pf p) (hm : truncateInput desc.ias md = md)
  (htg : desc.tcr.tgSizeLog2.toNat = p) {iter : List MemoryRegionDescriptor}
  (hl : ∀ it ∈ iter, it.length ≠ 0)

include hf hm htg hl

end Setting

end Pgt
