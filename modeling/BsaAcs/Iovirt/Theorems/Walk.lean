import BsaAcs.Iovirt.Walk
import Mathlib.Data.List.Perm.Basic

namespace Iovirt.Walk

-- What holds between the steps of a walk.
structure Ok (iort : Iort) (w : Walk) : Prop where
  nodup       : w.placed.Nodup
  length_le   : w.closed.length ≤ w.placed.length
  bound       : ∀ node ∈ w.placed, 4 * w.position node < 2 ^ 32
  followed_le : ∀ node ∈ w.placed, w.followed node ≤ node.maps.length
  targets     : ∀ node ∈ w.placed, ∀ i < w.followed node, ∃ target ∈ w.placed, iort.target node i = some target
  owners      : ∀ node ∈ w.placed, node.reference? = none ∨
    ∃ ref, node.reference? = some ref ∧ ∃ owner ∈ w.placed, iort.nodeAt ref = some owner

-- A walk only adds nodes, and follows all their mappings. The nodes that it goes on with are in `S`.
structure Grows (w w' : Walk) (S : IortNode → Prop) : Prop where
  added : ∃ new, w'.placed = w.placed ++ new ∧ w'.closed.Perm (w.closed ++ new)
  kept  : ∀ node ∈ w.placed, ¬S node → w'.followed node = w.followed node
  all   : ∀ node ∈ w'.placed, (node ∉ w.placed ∨ S node) → w'.followed node = node.maps.length

def Task.Ready (w : Walk) : Task → Prop
  | .meet _        => True
  | .follow node i => node ∈ w.placed ∧ w.followed node = i

def Task.Result (w w' : Walk) : Task → Prop
  | .meet node     => Grows w w' (fun _ => False) ∧ node ∈ w'.placed
  | .follow node _ => Grows w w' (· = node)

variable {iort : Iort} {w w' w₁ w₂ : Walk} {node target owner : IortNode} {S : IortNode → Prop} {i : Nat}

namespace Grows

theorem subset (h : Grows w w' S) (hn : node ∈ w.placed) : node ∈ w'.placed := by
  have ⟨_, hp, _⟩ := h.added
  simp [hp, hn]

theorem position_eq (h : Grows w w' S) (hn : node ∈ w.placed) : w'.position node = w.position node := by
  have ⟨_, hp, _⟩ := h.added
  simp only [position, hp, Layout.position_append hn]

theorem refl (hs : ∀ node ∈ w.placed, S node → w.followed node = node.maps.length) : Grows w w S where
  added := ⟨[], by simp⟩
  kept  := fun _ _ _ => rfl
  all   := fun node hn h => hs node hn (h.resolve_left (absurd hn))

end Grows

theorem position_add_le (hn : node ∈ w.placed) : w.position node + node.size ≤ w.next :=
  Layout.position_add_le hn

theorem position_separate (hn : node ∈ w.placed) (ht : target ∈ w.placed) (h : node ≠ target) :
    w.position node + node.size ≤ w.position target ∨ w.position target + target.size ≤ w.position node :=
  Layout.position_separate hn ht h

theorem le_position : firstBlock ≤ w.position node :=
  Layout.le_position

theorem mem_placed_of_visible (h : node ∈ w.visible) : node ∈ w.placed :=
  List.mem_of_mem_take h

theorem Found.visible (h : w.Found iort node) : node ∈ w.visible := by
  cases h <;> assumption

theorem Found.placed (h : w.Found iort node) : node ∈ w.placed :=
  mem_placed_of_visible h.visible

section Steps

theorem place_position (h : target ∈ w.placed) : (w.place node).position target = w.position target :=
  Layout.position_append h

theorem place_position_self (h : node ∉ w.placed) : (w.place node).position node = w.next := by
  simp [position, place, Layout.position_append_of_not_mem h, Layout.position, next]

theorem place_followed (h : target ≠ node) : (w.place node).followed target = w.followed target := by
  simp [place, h]

theorem follow_followed (h : target ≠ node) : (w.follow node i).followed target = w.followed target := by
  simp [follow, h]

end Steps

theorem Ok.start : Ok iort start where
  nodup       := List.nodup_nil
  length_le   := Nat.le_refl _
  bound       := by simp [Walk.start]
  followed_le := by simp [Walk.start]
  targets     := by simp [Walk.start]
  owners      := by simp [Walk.start]

theorem Ok.place (h : w.Ok iort) (hn : node ∉ w.placed) (ho : w.OwnerFound iort node)
    (hb : 4 * w.next < 2 ^ 32) : (w.place node).Ok iort where
  nodup := by
    have : (w.placed ++ [node]).Nodup := List.nodup_append.mpr ⟨h.nodup, by simp, by
      intro a ha b hb he
      exact hn (by simp_all)⟩
    exact this
  length_le := by
    have := h.length_le
    simp only [Walk.place, List.length_append]
    omega
  bound := by
    intro n hm
    rcases List.mem_append.mp hm with hm | hm
    case inl => exact place_position hm ▸ h.bound n hm
    case inr =>
      cases List.mem_singleton.mp hm
      exact place_position_self hn ▸ hb
  followed_le := by
    intro n hm
    rcases List.mem_append.mp hm with hm | hm
    case inl =>
      have hne : n ≠ node := fun he => hn (he ▸ hm)
      rw [place_followed hne]
      exact h.followed_le n hm
    case inr =>
      cases List.mem_singleton.mp hm
      simp [Walk.place]
  targets := by
    intro n hm i hi
    rcases List.mem_append.mp hm with hm | hm
    case inl =>
      have hne : n ≠ node := fun he => hn (he ▸ hm)
      rw [place_followed hne] at hi
      have ⟨t, ht, he⟩ := h.targets n hm i hi
      exact ⟨t, List.mem_append_left _ ht, he⟩
    case inr =>
      cases List.mem_singleton.mp hm
      simp [Walk.place] at hi
  owners := by
    intro n hm
    rcases List.mem_append.mp hm with hm | hm
    case inl =>
      refine (h.owners n hm).imp_right ?_
      intro ⟨ref, hr, o, ho, he⟩
      exact ⟨ref, hr, o, List.mem_append_left _ ho, he⟩
    case inr =>
      cases List.mem_singleton.mp hm
      refine ho.imp_right ?_
      intro ⟨ref, o, hr, he, hf⟩
      exact ⟨ref, hr, o, List.mem_append_left _ hf.placed, he⟩

-- The next mapping has been followed to a node that is placed.
theorem Ok.follow {map : IortIdMapping} (h : w.Ok iort) (hf : w.followed node = i)
    (hm : node.maps[i]? = some map) (ha : iort.nodeAt map.outputReference = some target)
    (ht : target ∈ w.placed) : (w.follow node (i + 1)).Ok iort where
  nodup     := h.nodup
  length_le := h.length_le
  bound     := h.bound
  followed_le := by
    intro n hn
    by_cases he : n = node
    case pos =>
      have ⟨hl, _⟩ := List.getElem?_eq_some_iff.mp hm
      simpa [he, Walk.follow] using hl
    case neg =>
      rw [follow_followed he]
      exact h.followed_le n hn
  targets := by
    intro n hn j hj
    by_cases he : n = node
    case pos =>
      cases he
      have hj : j < i + 1 := by simpa [Walk.follow] using hj
      by_cases hji : j = i
      case pos => exact ⟨target, ht, by simp [Iort.target, hji, hm, ha]⟩
      case neg => exact h.targets _ hn j (by omega)
    case neg => exact h.targets n hn j (follow_followed he ▸ hj)
  owners := h.owners

theorem Ok.close (h : w.Ok iort) (hl : w.closed.length < w.placed.length) : (w.close node).Ok iort where
  nodup       := h.nodup
  length_le   := by simpa [Walk.close] using hl
  bound       := h.bound
  followed_le := h.followed_le
  targets     := h.targets
  owners      := h.owners

-- Everything that is met is placed and closed, and the layout stays as it was.
theorem Visits.spec {task : Task} (h : Visits iort w task w') (hok : w.Ok iort) (hr : task.Ready w) :
    w'.Ok iort ∧ task.Result w w' := by
  induction h
  case again w node hf => exact ⟨hok, .refl (by simp), hf.placed⟩
  case done w node =>
    exact ⟨hok, .refl (by rintro n hn rfl; exact hr.right)⟩
  case place w w' node hn ho _ hb _ hi =>
    have hp := hok.place hn ho hb
    have ⟨hok', hg⟩ := hi hp ⟨by simp [Walk.place], by simp [Walk.place]⟩
    have ⟨new, hnew, hperm⟩ := hg.added
    have hplaced : w'.placed = w.placed ++ (node :: new) := by simpa [Walk.place] using hnew
    refine ⟨hok'.close ?_, ⟨⟨⟨node :: new, hplaced, ?_⟩, ?_, ?_⟩, by simp [Walk.close, hplaced]⟩⟩
    · have := hperm.length_eq
      have := hok.length_le
      simp only [hplaced, List.length_append, List.length_cons, Walk.place] at *
      omega
    · calc (w'.close node).closed
        _ = w'.closed ++ [node]          := rfl
        _ |>.Perm (w.closed ++ new ++ [node]) := hperm.append_right _
        _ |>.Perm (w.closed ++ (node :: new)) := by
          rw [List.append_assoc]
          exact (List.perm_append_singleton node new).append_left _
    · intro n hm _
      have hne : n ≠ node := fun he => hn (he ▸ hm)
      have := hg.kept n (by simp [Walk.place, hm]) hne
      rwa [place_followed hne] at this
    · intro n hm hor
      have hm : n ∈ w'.placed := hm
      refine hg.all n hm ?_
      by_cases he : n = node
      case pos => exact .inr he
      case neg => exact .inl (by simpa [Walk.place, he] using hor)
  case follow w w₁ w₂ node target i map hm ha _ _ hi₁ hi₂ =>
    have ⟨hn, hf⟩ := hr
    have ⟨hok₁, hg₁, ht⟩ := hi₁ hok trivial
    have hf₁ : w₁.followed node = i := hf ▸ hg₁.kept node hn id
    have ⟨hok₂, hg₂⟩ := hi₂ (hok₁.follow hf₁ hm ha ht) ⟨hg₁.subset hn, by simp [Walk.follow]⟩
    have ⟨new₁, hp₁, hc₁⟩ := hg₁.added
    have ⟨new₂, hp₂, hc₂⟩ := hg₂.added
    have hp₂ : w₂.placed = w₁.placed ++ new₂ := hp₂
    have hc₂ : w₂.closed.Perm (w₁.closed ++ new₂) := hc₂
    refine ⟨hok₂, ⟨new₁ ++ new₂, by simp [hp₁, hp₂], ?_⟩, ?_, ?_⟩
    · rw [← List.append_assoc]
      exact hc₂.trans (hc₁.append_right _)
    · intro n hm hne
      have := hg₂.kept n (hg₁.subset hm) hne
      rw [follow_followed hne] at this
      rw [this, hg₁.kept n hm id]
    · intro n hm hor
      by_cases he : n = node
      case pos => exact hg₂.all n hm (.inr he)
      case neg =>
        by_cases h₁ : n ∈ w₁.placed
        case pos =>
          rw [hg₂.kept n h₁ he, follow_followed he]
          exact hg₁.all n h₁ (.inl (hor.resolve_right he))
        case neg => exact hg₂.all n hm (.inl h₁)

theorem VisitsAll.spec {nodes : List IortNode} (h : VisitsAll iort w nodes w') (hok : w.Ok iort) :
    w'.Ok iort ∧ Grows w w' (fun _ => False) ∧ ∀ node ∈ nodes, node ∈ w'.placed := by
  induction h
  case nil => exact ⟨hok, .refl (by simp), by simp⟩
  case cons w w₁ w₂ node nodes hv _ hi =>
    have ⟨hok₁, hg₁, hn⟩ := hv.spec hok trivial
    have ⟨hok₂, hg₂, hall⟩ := hi hok₁
    have ⟨new₁, hp₁, hc₁⟩ := hg₁.added
    have ⟨new₂, hp₂, hc₂⟩ := hg₂.added
    refine ⟨hok₂, ⟨⟨new₁ ++ new₂, by simp [hp₁, hp₂], ?_⟩, ?_, ?_⟩, ?_⟩
    · rw [← List.append_assoc]
      exact hc₂.trans (hc₁.append_right _)
    · intro n hm _
      rw [hg₂.kept n (hg₁.subset hm) id, hg₁.kept n hm id]
    · intro n hm hor
      by_cases h₁ : n ∈ w₁.placed
      case pos =>
        rw [hg₂.kept n h₁ id]
        exact hg₁.all n h₁ hor
      case neg => exact hg₂.all n hm (.inl h₁)
    · intro n hm
      rcases List.mem_cons.mp hm with rfl | hm
      case inl => exact hg₂.subset hn
      case inr => exact hall n hm

end Iovirt.Walk
