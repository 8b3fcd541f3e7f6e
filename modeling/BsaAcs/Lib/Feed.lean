import Mathlib.Data.List.TakeDrop
import Mathlib.Tactic

-- A producer that extends a log and publishes how many of its entries may be taken, and a consumer that takes
-- the published entries one after the other, wherever it finds them.

structure Feed (P α : Type*) where
  step      : P → P → Prop
  log       : P → List α
  published : P → Nat
  fetch     : P → Nat → Option α

namespace Feed

variable {P α σ : Type*}

-- The log only grows, no more of it is published than there is, and what has been published is found by the
-- consumer.
structure Lawful (feed : Feed P α) (I : P → Prop) : Prop where
  inv       : I p → feed.step p p' → I p'
  grows     : I p → feed.step p p' → feed.log p <+: feed.log p'
  mono      : I p → feed.step p p' → feed.published p ≤ feed.published p'
  bounded   : I p → feed.published p ≤ (feed.log p).length
  fetch_log : I p → n < feed.published p → feed.fetch p n = (feed.log p)[n]?

-- Any interleaving of the two from `p₀` and `s₀`: the consumer stops only where it has taken as many entries as
-- have been published.
inductive Reach (feed : Feed P α) (exec : σ → α → σ) (p₀ : P) (s₀ : σ) : P → Nat → σ → Prop
  | start                : Reach feed exec p₀ s₀ p₀ 0 s₀
  | produce {p p' n s}   : Reach feed exec p₀ s₀ p n s → feed.step p p' → Reach feed exec p₀ s₀ p' n s
  | consume {p n s entry} : Reach feed exec p₀ s₀ p n s → n ≠ feed.published p → feed.fetch p n = some entry →
      Reach feed exec p₀ s₀ p (n + 1) (exec s entry)

namespace Reach

variable {feed : Feed P α} {exec : σ → α → σ} {I : P → Prop} {p₀ p : P} {s₀ s : σ} {n : Nat}

theorem inv (hf : feed.Lawful I) (h₀ : I p₀) (h : Reach feed exec p₀ s₀ p n s) : I p := by
  induction h
  case start             => exact h₀
  case produce hs hi     => exact hf.inv hi hs
  case consume _ _ hi    => exact hi

theorem le_published (hf : feed.Lawful I) (h₀ : I p₀) (h : Reach feed exec p₀ s₀ p n s) : n ≤ feed.published p := by
  induction h
  case start               => exact Nat.zero_le _
  case produce hr hs hi    => exact hi.trans (hf.mono (hr.inv hf h₀) hs)
  case consume hne _ hi    => omega

-- The consumer has executed the first entries of the log, in order.
theorem executed (hf : feed.Lawful I) (h₀ : I p₀) (h : Reach feed exec p₀ s₀ p n s) :
    s = ((feed.log p).take n).foldl exec s₀ := by
  induction h
  case start => rfl
  case produce p p' n s hr hs hi =>
    have hle := (hr.le_published hf h₀).trans (hf.bounded (hr.inv hf h₀))
    have ⟨rest, hg⟩ := hf.grows (hr.inv hf h₀) hs
    rw [hi, ← hg, List.take_append_of_le_length hle]
  case consume p n s entry hr hne he hi =>
    have hlt : n < feed.published p := Nat.lt_of_le_of_ne (hr.le_published hf h₀) hne
    rw [hf.fetch_log (hr.inv hf h₀) hlt] at he
    rw [List.take_add_one, he, Option.toList_some, List.foldl_append, ← hi]
    rfl

-- It never waits for an entry that has been published.
theorem progress (hf : feed.Lawful I) (h₀ : I p₀) (h : Reach feed exec p₀ s₀ p n s) (hne : n ≠ feed.published p) :
    ∃ entry, feed.fetch p n = some entry ∧ (feed.log p)[n]? = some entry := by
  have hlt : n < feed.published p := Nat.lt_of_le_of_ne (h.le_published hf h₀) hne
  have hlen : n < (feed.log p).length := hlt.trans_le (hf.bounded (h.inv hf h₀))
  refine ⟨(feed.log p)[n], ?_, List.getElem?_eq_getElem hlen⟩
  rw [hf.fetch_log (h.inv hf h₀) hlt, List.getElem?_eq_getElem hlen]

-- Once it has caught up with a producer that has published everything, it has executed the whole log.
theorem drained (hf : feed.Lawful I) (h₀ : I p₀) (h : Reach feed exec p₀ s₀ p n s) (hn : n = feed.published p)
    (hall : feed.published p = (feed.log p).length) : s = (feed.log p).foldl exec s₀ := by
  rw [h.executed hf h₀, hn, hall, List.take_length]

-- It can always catch up.
theorem catchUp (hf : feed.Lawful I) (h₀ : I p₀) (h : Reach feed exec p₀ s₀ p n s) :
    ∃ s', Reach feed exec p₀ s₀ p (feed.published p) s' := by
  have hle := h.le_published hf h₀
  generalize hk : feed.published p - n = k
  induction k generalizing n s
  case zero =>
    have hn : n = feed.published p := by omega
    exact ⟨s, hn ▸ h⟩
  case succ k hi =>
    have ⟨entry, he, _⟩ := h.progress hf h₀ (by omega)
    exact hi (h.consume (by omega) he) (by omega) (by omega)

end Reach

end Feed
