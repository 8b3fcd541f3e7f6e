import BsaAcs.Pgt.Theorems.Fill
import Mathlib.Data.List.Nodup

namespace Pgt

-- The pages of a table: which words belong to a page, and how the tree that the memory holds
-- depends on the words of its own pages only.

def InPage (p q a : Nat) : Prop :=
  q ≤ a ∧ a < q + 2 ^ p

theorem InPage.unique (hq : 2 ^ p ∣ q) (hr : 2 ^ p ∣ r) (h₁ : InPage p q a) (h₂ : InPage p r a) :
    q = r := by
  obtain ⟨m, rfl⟩ := hq
  obtain ⟨n, rfl⟩ := hr
  have hm : a / 2 ^ p = m := Nat.div_eq_of_lt_le (Nat.mul_comm .. ▸ h₁.left)
    (by rw [Nat.add_mul, Nat.one_mul, Nat.mul_comm]; exact h₁.right)
  have hn : a / 2 ^ p = n := Nat.div_eq_of_lt_le (Nat.mul_comm .. ▸ h₂.left)
    (by rw [Nat.add_mul, Nat.one_mul, Nat.mul_comm]; exact h₂.right)
  rw [←hm, ←hn]

theorem inPage_entry (hp : 3 ≤ p) (hi : i < 2 ^ (p - 3)) : InPage p q (q + 8 * i) := by
  have : 2 ^ p = 8 * 2 ^ (p - 3) := by
    rw [show (8 : Nat) = 2 ^ 3 from rfl, ←Nat.pow_add]
    congr 1
    omega
  simp only [InPage]
  omega

-- The tree that a word of a table with `h` levels below it stands for.
def decode (mem : Memory) (p : Nat) : Nat → Nat → Tree
  | 0, word => if word = 0 then .empty else .leaf word
  | h + 1, word =>
    if word = 0 then .empty
    else if word.testBit 1 then .table word (readTree mem p h (Bits.slice 47 p word))
    else .leaf word

theorem readTree_eq_decode (hi : i < 2 ^ (p - 3)) :
    readTree mem p h base i = decode mem p h (mem (base + 8 * i)) := by
  cases h <;> by_cases hz : mem (base + 8 * i) = 0 <;>
    simp [readTree, decode, hz, Nat.not_le_of_lt hi]

theorem readTree_of_le (hi : 2 ^ (p - 3) ≤ i) : readTree mem p h base i = .empty := by
  cases h <;> simp [readTree, hi]

theorem mem_tablePages :
    q ∈ tablePages p h slots ↔ ∃ i < 2 ^ (p - 3), q ∈ (slots i).pages p h := by
  simp [tablePages]

theorem slot_mem_tablePages (hi : i < 2 ^ (p - 3)) (hq : q ∈ (slots i).pages p h) :
    q ∈ tablePages p h slots :=
  mem_tablePages.mpr ⟨i, hi, hq⟩

theorem mem_pages_table : q ∈ (Tree.table word slots).pages p (h + 1) ↔
    q ∈ tablePages p h slots ∨ q = Bits.slice 47 p word := by
  simp [Tree.pages, tablePages]

theorem nodup_pages_table : ((Tree.table word slots).pages p (h + 1)).Nodup ↔
    (Bits.slice 47 p word :: tablePages p h slots).Nodup := by
  simp only [Tree.pages]
  rw [List.nodup_append_comm]
  rfl

@[simp]
theorem pages_empty : Tree.empty.pages p h = [] := by
  cases h <;> rfl

@[simp]
theorem pages_leaf : (Tree.leaf word).pages p h = [] := by
  cases h <;> rfl

theorem nodup_tablePages_iff : (tablePages p h slots).Nodup ↔
    (∀ i < 2 ^ (p - 3), ((slots i).pages p h).Nodup) ∧
    (∀ i < 2 ^ (p - 3), ∀ j < 2 ^ (p - 3), i ≠ j →
      ∀ q ∈ (slots i).pages p h, q ∉ (slots j).pages p h) := by
  rw [tablePages, List.nodup_flatMap]
  simp only [List.mem_range]
  refine and_congr_right fun _ => ⟨?mp, ?mpr⟩
  case mp =>
    intro hp i hi j hj hne q hq
    have : Std.Symm (Function.onFun List.Disjoint fun i => (slots i).pages p h) :=
      ⟨fun _ _ h => List.Disjoint.symm h⟩
    exact hp.forall (List.mem_range.mpr hi) (List.mem_range.mpr hj) hne hq
  case mpr =>
    intro hp
    apply List.nodup_range.pairwise_of_forall_ne
    intro i hi j hj hne q hq
    exact hp i (List.mem_range.mp hi) j (List.mem_range.mp hj) hne q hq

theorem readTree_ext (hd : ∀ i < 2 ^ (p - 3), decode m' p h (m' (base + 8 * i)) =
    decode m p h (m (base + 8 * i))) : readTree m' p h base = readTree m p h base := by
  funext i
  by_cases hi : i < 2 ^ (p - 3)
  case pos => rw [readTree_eq_decode hi, readTree_eq_decode hi, hd i hi]
  case neg => simp only [readTree_of_le (Nat.not_lt.mp hi)]

-- The tree that a word stands for depends on the words of the pages below it only.
theorem decode_congr (hp : 3 ≤ p) (hm : ∀ a, (∃ q ∈ (decode m p h w).pages p h, InPage p q a) →
    m' a = m a) : decode m' p h w = decode m p h w := by
  induction h generalizing w
  case zero => rfl
  case succ h ih =>
    simp only [decode] at hm ⊢
    split
    case isTrue => rfl
    case isFalse hz =>
      split
      case isFalse => rfl
      case isTrue hb =>
        simp only [if_neg hz, if_pos hb, mem_pages_table] at hm
        congr 1
        apply readTree_ext
        intro i hi
        rw [hm _ ⟨_, .inr rfl, inPage_entry hp hi⟩]
        refine ih fun a ⟨q, hq, ha⟩ => hm a ⟨q, .inl <| mem_tablePages.mpr ⟨i, hi, ?_⟩, ha⟩
        rwa [readTree_eq_decode hi]

theorem readTree_congr (hp : 3 ≤ p) (hm : ∀ a, (∃ q ∈ base :: tablePages p h (readTree m p h base),
    InPage p q a) → m' a = m a) : readTree m' p h base = readTree m p h base := by
  apply readTree_ext
  intro i hi
  rw [hm _ ⟨base, List.mem_cons_self, inPage_entry hp hi⟩]
  refine decode_congr hp fun a ⟨q, hq, ha⟩ => hm a ⟨q, List.mem_cons_of_mem _ ?_, ha⟩
  exact mem_tablePages.mpr ⟨i, hi, readTree_eq_decode hi ▸ hq⟩

-- A zeroed page is the empty table.
theorem readTree_of_zero (hp : 3 ≤ p) (hz : ∀ a, InPage p base a → m a = 0) :
    readTree m p h base = fun _ => .empty := by
  funext i
  by_cases hi : i < 2 ^ (p - 3)
  case pos =>
    rw [readTree_eq_decode hi, hz _ (inPage_entry hp hi)]
    cases h <;> rfl
  case neg => exact readTree_of_le (Nat.not_lt.mp hi)

theorem tablePages_empty : tablePages p h (fun _ => .empty) = [] := by
  simp [tablePages]

end Pgt
