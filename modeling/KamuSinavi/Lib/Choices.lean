import Mathlib.Data.List.Basic
import Mathlib.Data.List.Count
import Mathlib.Logic.Function.Basic

/-! # Choosing an option for each item

Each item of a list has options, some of which are right for it, and one option is chosen for each.
`fewest` and `most` are the items whose options are all right and those with a right option;
`countP_choice` and `exists_choice` say that the numbers of right choices are those between them. -/

namespace KamuSinavi.Lib.Choices

variable {α β : Type*} (options : α → List β) (right : α → β → Bool)

/-- The number of items for which only right options can be chosen. -/
def fewest (l : List α) : ℕ := l.countP fun a => (options a).all (right a)

/-- The number of items for which a right option can be chosen. -/
def most (l : List α) : ℕ := l.countP fun a => (options a).any (right a)

variable {l : List α}

/-- **The number of right choices is between the bounds.** -/
theorem countP_choice {f : α → β} (hf : ∀ a ∈ l, f a ∈ options a) :
    fewest options right l ≤ l.countP (fun a => right a (f a)) ∧
      l.countP (fun a => right a (f a)) ≤ most options right l := by
  refine ⟨List.countP_mono_left fun a ha hall => ?_, List.countP_mono_left fun a ha hr => ?_⟩
  · exact List.all_eq_true.mp hall _ (hf a ha)
  · exact List.any_eq_true.mpr ⟨_, hf a ha, hr⟩

variable {options}

/-- One more item, for which `b` is chosen. -/
theorem extend_choice [DecidableEq α] {a : α} (ha : a ∉ l) {f : α → β}
    (hf : ∀ c ∈ l, f c ∈ options c) {b : β} (hb : b ∈ options a) :
    (∀ c ∈ a :: l, Function.update f a b c ∈ options c) ∧
      (a :: l).countP (fun c => right c (Function.update f a b c)) =
        l.countP (fun c => right c (f c)) + if right a b then 1 else 0 := by
  have hold : ∀ c ∈ l, Function.update f a b c = f c := fun c hc =>
    Function.update_of_ne (ne_of_mem_of_not_mem hc ha) b f
  refine ⟨List.forall_mem_cons.mpr ⟨?_, fun c hc => ?_⟩, ?_⟩
  · rw [Function.update_self]
    exact hb
  · rw [hold c hc]
    exact hf c hc
  · rw [List.countP_cons, Function.update_self]
    refine congrArg (· + _) (List.countP_congr fun c hc => ?_)
    rw [hold c hc]

variable {right}

theorem fewest_le_most (hne : ∀ a ∈ l, options a ≠ []) :
    fewest options right l ≤ most options right l := by
  refine List.countP_mono_left fun a ha hall => ?_
  obtain ⟨b, hb⟩ := List.exists_mem_of_ne_nil _ (hne a ha)
  exact List.any_eq_true.mpr ⟨b, hb, List.all_eq_true.mp hall b hb⟩

/-- **Every number between the bounds is that of some choice**, if the items are distinct and have
options. -/
theorem exists_choice [DecidableEq α] [Inhabited β] (hl : l.Nodup) (hne : ∀ a ∈ l, options a ≠ [])
    {k : ℕ} (hlo : fewest options right l ≤ k) (hhi : k ≤ most options right l) :
    ∃ f : α → β, (∀ a ∈ l, f a ∈ options a) ∧ l.countP (fun a => right a (f a)) = k := by
  induction l generalizing k with
  | nil => exact ⟨fun _ => default, fun _ h => absurd h List.not_mem_nil, (Nat.le_zero.mp hhi).symm⟩
  | cons a l ih =>
    obtain ⟨ha, hl⟩ := List.nodup_cons.mp hl
    obtain ⟨hopts, hne⟩ := List.forall_mem_cons.mp hne
    have hle : fewest options right l ≤ most options right l := fewest_le_most hne
    rw [fewest, List.countP_cons] at hlo
    rw [most, List.countP_cons] at hhi
    obtain ⟨b₀, hb₀⟩ := List.exists_mem_of_ne_nil _ hopts
    -- a right option is chosen if there is no other, or if `l` alone does not have as many
    by_cases hright : (options a).all (right a) = true ∨ most options right l < k
    · obtain ⟨b, hb, hbr⟩ : ∃ b ∈ options a, right a b = true := by
        rcases hright with hall | hlt
        · exact ⟨b₀, hb₀, List.all_eq_true.mp hall b₀ hb₀⟩
        · refine List.any_eq_true.mp ?_
          by_contra hno
          rw [if_neg hno] at hhi
          exact absurd hhi (Nat.not_le.mpr hlt)
      have hk : 0 < k ∧ fewest options right l ≤ k - 1 ∧ k - 1 ≤ most options right l := by
        unfold fewest most at *
        rcases hright with hall | hlt
        · rw [if_pos hall] at hlo
          split_ifs at hhi <;> omega
        · split_ifs at hlo hhi <;> omega
      obtain ⟨f, hf, hcount⟩ := ih hl hne hk.2.1 hk.2.2
      obtain ⟨hmem, hc⟩ := extend_choice right ha hf hb
      refine ⟨_, hmem, hc.trans ?_⟩
      rw [hcount, if_pos hbr]
      omega
    · obtain ⟨hall, hk⟩ := not_or.mp hright
      obtain ⟨b, hb, hbr⟩ : ∃ b ∈ options a, ¬ right a b = true := by
        by_contra hno
        refine hall (List.all_eq_true.mpr fun b hb => ?_)
        by_contra hbr
        exact hno ⟨b, hb, hbr⟩
      rw [if_neg hall] at hlo
      obtain ⟨f, hf, hcount⟩ := ih hl hne hlo (Nat.not_lt.mp hk)
      obtain ⟨hmem, hc⟩ := extend_choice right ha hf hb
      refine ⟨_, hmem, hc.trans ?_⟩
      rw [hcount, if_neg hbr, Nat.add_zero]

end KamuSinavi.Lib.Choices
