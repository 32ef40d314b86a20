import Mathlib.Data.List.MinMax

/-!
# A best element

One pass over a list keeps a candidate until a strictly better one comes, and starts from a score that
has to be beaten. Its result is a maximum, and of several it is the first.
-/

namespace DemandSignal.Search

variable {α β : Type} [LinearOrder β] {score : α → β} {least : β} {l l' : List α} {a b : α}

/-- The candidate so far and the score to beat. -/
def keepBetter (score : α → β) (best : Option α × β) (a : α) : Option α × β :=
  if best.2 < score a then (some a, score a) else best

def best (score : α → β) (least : β) (l : List α) : Option α :=
  (l.foldl (keepBetter score) (none, least)).1

/-- A candidate that nothing beats. -/
structure IsBest (score : α → β) (least : β) (l : List α) (a : α) : Prop where
  mem : a ∈ l
  lt : least < score a
  le : ∀ b ∈ l, score b ≤ score a

theorem IsBest.of_perm (h : IsBest score least l a) (hperm : l.Perm l') : IsBest score least l' a :=
  ⟨hperm.mem_iff.mp h.mem, h.lt, fun b hb => h.le b (hperm.mem_iff.mpr hb)⟩

/-- The score of the candidate so far is the score to beat. -/
theorem foldl_keepBetter : l.foldl (keepBetter score) (none, least) =
    ((l.filter fun a => least < score a).argmax score,
      ((l.filter fun a => least < score a).argmax score).elim least score) := by
  induction l using List.reverseRecOn with
  | nil => rfl
  | append_singleton l a ih =>
      rw [List.foldl_append, ih, List.foldl_cons, List.foldl_nil, keepBetter, List.filter_append]
      by_cases hlt : least < score a
      · rw [List.filter_singleton, decide_eq_true hlt, cond_true, List.argmax_concat]
        cases hbest : (l.filter fun a => least < score a).argmax score with
        | none => simp [hlt]
        | some b => by_cases hbetter : score b < score a <;> simp [hbetter]
      · rw [List.filter_singleton, decide_eq_false hlt, cond_false, List.append_nil, if_neg]
        cases hbest : (l.filter fun a => least < score a).argmax score with
        | none => exact hlt
        | some b =>
            have hb := List.argmax_mem hbest
            rw [List.mem_filter, decide_eq_true_iff] at hb
            exact not_lt.mpr ((not_lt.mp hlt).trans hb.2.le)

theorem best_eq_argmax :
    best score least l = (l.filter fun a => least < score a).argmax score := by
  rw [best, foldl_keepBetter]

theorem isBest_of_best (h : best score least l = some a) : IsBest score least l a := by
  rw [best_eq_argmax] at h
  have hmem := List.argmax_mem h
  rw [List.mem_filter, decide_eq_true_iff] at hmem
  refine ⟨hmem.1, hmem.2, fun b hb => ?_⟩
  by_cases hlt : least < score b
  · exact List.le_of_mem_argmax (List.mem_filter.mpr ⟨hb, decide_eq_true hlt⟩) h
  · exact (not_lt.mp hlt).trans hmem.2.le

theorem best_eq_none_iff : best score least l = none ↔ ∀ b ∈ l, score b ≤ least := by
  rw [best_eq_argmax, List.argmax_eq_none, List.filter_eq_nil_iff]
  simp

/-- Of several best elements the pass returns the first. -/
theorem best_cons (h : IsBest score least (a :: l) a) : best score least (a :: l) = some a := by
  rw [best_eq_argmax, List.filter_cons, if_pos (decide_eq_true h.lt), List.argmax_cons]
  cases hbest : (l.filter fun a => least < score a).argmax score with
  | none => rfl
  | some b =>
      have hb := List.mem_of_mem_filter (List.argmax_mem hbest)
      exact if_neg (not_lt.mpr (h.le b (List.mem_cons_of_mem _ hb)))

/-- Each best element is the result of some order. -/
theorem IsBest.exists_order (h : IsBest score least l a) :
    ∃ order : List α, order.Perm l ∧ best score least order = some a := by
  obtain ⟨before, after, rfl⟩ := List.mem_iff_append.mp h.mem
  have hperm : (a :: (before ++ after)).Perm (before ++ a :: after) := List.perm_middle.symm
  exact ⟨_, hperm, best_cons (h.of_perm hperm.symm)⟩

theorem IsBest.exists_best (h : IsBest score least l a) : ∃ b, best score least l = some b := by
  cases hbest : best score least l with
  | none => exact absurd h.lt (not_lt.mpr (best_eq_none_iff.mp hbest a h.mem))
  | some b => exact ⟨b, rfl⟩

/-- **The result is the same in every order if and only if no two elements are best.** -/
theorem best_order_iff : (∀ order : List α, order.Perm l → best score least order = best score least l) ↔
    ∀ a b, IsBest score least l a → IsBest score least l b → a = b := by
  constructor
  · intro h a b ha hb
    obtain ⟨order, hperm, hresult⟩ := ha.exists_order
    obtain ⟨order', hperm', hresult'⟩ := hb.exists_order
    rw [h order hperm] at hresult
    rw [h order' hperm', hresult] at hresult'
    exact Option.some.inj hresult'
  · intro h order hperm
    cases hbest : best score least l with
    | none =>
        rw [best_eq_none_iff] at hbest ⊢
        exact fun b hb => hbest b (hperm.mem_iff.mp hb)
    | some a =>
        have ha := isBest_of_best hbest
        obtain ⟨b, hb⟩ := (ha.of_perm hperm.symm).exists_best
        rw [hb, h b a ((isBest_of_best hb).of_perm hperm) ha]

end DemandSignal.Search
