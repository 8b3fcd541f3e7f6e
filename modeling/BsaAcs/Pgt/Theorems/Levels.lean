import BsaAcs.Pgt.Theorems.Destroy

namespace Pgt

-- The walk of a table that was made for another number of input address bits.

section

variable {mem : Memory} {p h n n' base va : Nat}

end

section

variable {pf : Platform} {p : Nat} {desc : PgtDescriptor} {r : MemoryRegionDescriptor}
  {rest : List MemoryRegionDescriptor} (hs : Setting pf p desc)
  (hl : ∀ it ∈ r :: rest, it.length ≠ 0) (hfit : Fits desc r)
  {fuel : Nat} {s : State} {res : CreateResult} (hf : PageAllocator pf p)
  (hlow : LowPages pf s.allocs res.state.allocs) (ha : AttrBits r.attributes)
  (hc : valPgtCreate pf fuel (r :: rest) desc s = some res) (h0 : res.status = 0)

include hs hl hf hlow ha hc h0

include hfit

-- A memory that holds the pages of the table.
variable {mem : Memory}
  (hm : ∀ k, s.allocs ≤ k → k < res.state.allocs → ∀ x, InPage p (pf.page k) x → mem x = res.state.mem x)

include hm

variable {ias : Nat} (hi : p < ias) (hlt : ias < 64)

include hi hlt

end

end Pgt
