/-
A mark on a numbered stream below which everything that has to be acknowledged has been.

The stream may ask for several items at a number, or for none; a sender takes items from it into a
queue, sends some of the first of them, and raises the mark to the number of the last one that was
acknowledged.
-/
import Mathlib.Order.Nat

namespace Watermark

open List

/-- What is asked for at each number, the number of an item, what has been acknowledged, and how
far the stream goes. -/
structure Stream (α : Type*) where
  required : ℕ → α → Prop
  number : α → ℕ
  acked : List α
  bound : ℕ

namespace Stream

variable {α : Type*} {S S' : Stream α} {items : List α} {x : α} {mark : ℕ}

/-- Everything up to the mark has been acknowledged. -/
def Settled (S : Stream α) (mark : ℕ) : Prop := ∀ k ≤ mark, ∀ y, S.required k y → y ∈ S.acked

def Mark (S : Stream α) (mark : ℕ) : Prop := S.Settled mark ∧ mark ≤ S.bound

/-- A queue that leaves nothing out. -/
def Queued (S : Stream α) (items : List α) : Prop :=
  ∀ front x back, items = front ++ x :: back → S.number x ≤ S.bound ∧
    ∀ k ≤ S.number x, ∀ y, S.required k y → y ∈ S.acked ∨ y ∈ front ++ [x]

/-- The stream with more acknowledged. -/
def ack (S : Stream α) (items : List α) : Stream α := { S with acked := S.acked ++ items }

/-- More is acknowledged or the stream goes on; what it asks for stays. -/
structure Extends (S S' : Stream α) : Prop where
  number_eq : S'.number = S.number
  acked : ∀ y ∈ S.acked, y ∈ S'.acked
  bound : S.bound ≤ S'.bound
  required : ∀ k ≤ S.bound, ∀ y, S'.required k y → S.required k y

theorem extends_ack (S : Stream α) (items : List α) : S.Extends (S.ack items) :=
  ⟨rfl, fun _ h => mem_append_left _ h, le_rfl, fun _ _ _ h => h⟩

/-! ## Marks -/

theorem Mark.extend (hmark : S.Mark mark) (hext : S.Extends S') : S'.Mark mark := by
  obtain ⟨hsettled, hle⟩ := hmark
  refine ⟨fun k hk y hy => ?_, hle.trans hext.bound⟩
  exact hext.acked y (hsettled k hk y (hext.required k (hk.trans hle) y hy))

theorem Settled.succ (hsettled : S.Settled mark)
    (hnext : ∀ y, S.required (mark + 1) y → y ∈ S.acked) : S.Settled (mark + 1) := by
  intro k hk y hy
  rcases Nat.le_succ_iff.mp hk with hold | rfl
  · exact hsettled k hold y hy
  · exact hnext y hy

/-! ## Queues -/

theorem queued_nil (S : Stream α) : S.Queued [] :=
  fun front x back hsplit => absurd hsplit (by simp)

theorem Queued.extend (hqueued : S.Queued items) (hext : S.Extends S') : S'.Queued items := by
  intro front x back hsplit
  rw [hext.number_eq]
  obtain ⟨hle, hall⟩ := hqueued front x back hsplit
  refine ⟨hle.trans hext.bound, fun k hk y hy => ?_⟩
  rcases hall k hk y (hext.required k (hk.trans hle) y hy) with hacked | hfront
  · exact .inl (hext.acked y hacked)
  · exact .inr hfront

theorem queued_cons (hle : S.number x ≤ S.bound) (hsettled : (S.ack [x]).Settled (S.number x))
    (hqueued : (S.ack [x]).Queued items) : S.Queued (x :: items) := by
  intro front z back hsplit
  rcases front with _ | ⟨w, front⟩
  · obtain ⟨rfl, -⟩ := cons.inj hsplit
    refine ⟨hle, fun k hk y hy => ?_⟩
    have hmem := hsettled k hk y hy
    rw [ack, mem_append] at hmem
    exact hmem
  · obtain ⟨rfl, hrest⟩ := cons.inj hsplit
    obtain ⟨hz, hall⟩ := hqueued front z back hrest
    refine ⟨hz, fun k hk y hy => ?_⟩
    rcases hall k hk y hy with hmem | hmem
    · rw [ack, mem_append, mem_singleton] at hmem
      rcases hmem with hacked | rfl
      · exact .inl hacked
      · exact .inr mem_cons_self
    · exact .inr (mem_cons_of_mem _ hmem)

theorem Queued.take (hqueued : S.Queued items) (count : ℕ) : S.Queued (items.take count) := by
  intro front x back hsplit
  refine hqueued front x (back ++ items.drop count) ?_
  conv_lhs => rw [← take_append_drop count items, hsplit]
  simp

theorem Queued.ack_drop (hqueued : S.Queued items) (count : ℕ) :
    (S.ack (items.take count)).Queued (items.drop count) := by
  intro front x back hsplit
  have hitems : items = (items.take count ++ front) ++ x :: back := by
    conv_lhs => rw [← take_append_drop count items, hsplit]
    simp
  obtain ⟨hle, hall⟩ := hqueued _ x back hitems
  refine ⟨hle, fun k hk y hy => ?_⟩
  rcases hall k hk y hy with hacked | hmem
  · exact .inl (mem_append_left _ hacked)
  · rw [append_assoc, mem_append] at hmem
    exact hmem.imp (mem_append_right _) id

theorem Queued.mark_last (hqueued : S.Queued items) {count : ℕ}
    (hlast : (items.take count).getLast? = some x) :
    (S.ack (items.take count)).Mark (S.number x) := by
  obtain ⟨front, hfront⟩ := List.getLast?_eq_some_iff.mp hlast
  obtain ⟨hle, hall⟩ := hqueued.take count front x [] hfront
  refine ⟨fun k hk y hy => ?_, hle⟩
  rw [ack, mem_append, hfront]
  exact hall k hk y hy

theorem queued_filter {item : ℕ → Option α} {keep : α → Bool} (hmark : S.Settled mark)
    (hrequired : ∀ k y, S.required k y → item k = some y ∧ keep y = true)
    (hnumber : ∀ k y, item k = some y → S.number y = k) {window : List α}
    (hwindow : window.map some = (List.range' (mark + 1) window.length).map item)
    (hbound : mark + window.length ≤ S.bound) : S.Queued (window.filter keep) := by
  -- the mark moves along the stretch, past what is not asked for and over what is queued
  induction window generalizing S mark with
  | nil => exact S.queued_nil
  | cons w window ih =>
    obtain ⟨hw, hrest⟩ := cons.inj hwindow
    rw [length_cons] at hbound
    have hnext : ∀ y, S.required (mark + 1) y → y = w ∧ keep w = true := by
      intro y hy
      obtain ⟨hitem, hkeep⟩ := hrequired (mark + 1) y hy
      have heq : y = w := Option.some.inj (hitem.symm.trans hw.symm)
      exact ⟨heq, heq ▸ hkeep⟩
    by_cases hkeep : keep w = true
    · rw [filter_cons_of_pos hkeep]
      have hnumberw : S.number w = mark + 1 := hnumber _ _ hw.symm
      have hsettled : (S.ack [w]).Settled (mark + 1) := by
        refine Settled.succ (fun k hk y hy => ?_) (fun y hy => ?_)
        · exact mem_append_left _ (hmark k hk y hy)
        · exact mem_append_right _ (mem_singleton.mpr (hnext y hy).1)
      refine queued_cons (by omega) (hnumberw ▸ hsettled) ?_
      exact ih hsettled hrequired hnumber hrest (by rw [ack]; dsimp only; omega)
    · rw [filter_cons_of_neg hkeep]
      refine ih (hmark.succ (fun y hy => absurd (hnext y hy).2 hkeep)) hrequired hnumber hrest
        (by omega)

end Stream

end Watermark
