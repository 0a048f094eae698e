import Mathlib

/-! # The first point of an interval with a property

A search for the least `k` of `[lo, hi)` with `P k` answers `some k`, or `none` when the
interval has no such point; `IsFirst P lo hi r` says that `r` is the right answer.  A
search that scans its interval piece by piece is right when the answer of each piece
is: split at any point, the answers of the two parts combine with `Option.or`
(`IsFirst.split`); an empty interval answers `none` (`isFirst_of_le`,
`IsFirst.eq_none_of_le`); a low end that fails `P` is passed over (`IsFirst.of_succ`);
and `P` may be traded for a property that agrees with it on the interval
(`IsFirst.congr`).
-/

namespace FirstHit

/-- `r` is the least point of `[lo, hi)` with `P`, or `none` if the interval has none. -/
def IsFirst (P : ℕ → Prop) (lo hi : ℕ) : Option ℕ → Prop
  | some r => lo ≤ r ∧ r < hi ∧ P r ∧ ∀ k, lo ≤ k → k < r → ¬ P k
  | none => ∀ k, lo ≤ k → k < hi → ¬ P k

variable {P Q : ℕ → Prop} {lo hi : ℕ} {r : Option ℕ}

@[simp] theorem isFirst_none : IsFirst P lo hi none ↔ ∀ k, lo ≤ k → k < hi → ¬ P k := Iff.rfl

@[simp] theorem isFirst_some {x : ℕ} :
    IsFirst P lo hi (some x) ↔ lo ≤ x ∧ x < hi ∧ P x ∧ ∀ k, lo ≤ k → k < x → ¬ P k := Iff.rfl

/-- An empty interval has no point. -/
theorem isFirst_of_le (h : hi ≤ lo) : IsFirst P lo hi none :=
  fun _ hk hkhi => absurd (Nat.lt_of_le_of_lt hk hkhi) (Nat.not_lt.mpr h)

theorem IsFirst.eq_none_of_le (hr : IsFirst P lo hi r) (h : hi ≤ lo) : r = none := by
  cases r with
  | none => rfl
  | some x => exact absurd (Nat.lt_of_le_of_lt hr.1 hr.2.1) (Nat.not_lt.mpr h)

/-- A low end with `P` is the first point. -/
theorem isFirst_lo (hlt : lo < hi) (hP : P lo) : IsFirst P lo hi (some lo) :=
  ⟨le_rfl, hlt, hP, fun _ hk hkx => absurd hk (Nat.not_le.mpr hkx)⟩

/-- A low end without `P` is passed over. -/
theorem IsFirst.of_succ (hP : ¬ P lo) (hr : IsFirst P (lo + 1) hi r) : IsFirst P lo hi r := by
  cases r with
  | none =>
    intro k hk hkhi
    rcases Nat.eq_or_lt_of_le hk with rfl | hk'
    · exact hP
    · exact hr k hk' hkhi
  | some x =>
    obtain ⟨hx, hxhi, hPx, hmin⟩ := hr
    refine ⟨by omega, hxhi, hPx, fun k hk hkx => ?_⟩
    rcases Nat.eq_or_lt_of_le hk with rfl | hk'
    · exact hP
    · exact hmin k hk' hkx

/-- Only the values of the property on the interval matter. -/
theorem IsFirst.congr (hPQ : ∀ k, lo ≤ k → k < hi → (P k ↔ Q k)) (hr : IsFirst P lo hi r) :
    IsFirst Q lo hi r := by
  cases r with
  | none => exact fun k hk hkhi hQ => hr k hk hkhi ((hPQ k hk hkhi).mpr hQ)
  | some x =>
    obtain ⟨hx, hxhi, hPx, hmin⟩ := hr
    exact ⟨hx, hxhi, (hPQ x hx hxhi).mp hPx,
      fun k hk hkx hQ => hmin k hk hkx ((hPQ k hk (Nat.lt_trans hkx hxhi)).mpr hQ)⟩

/-- **Splitting the interval at `m`**: the first point is the first one below `m`, or
else the first one from `m` on.  `m` may lie outside the interval, where one of the
parts is empty. -/
theorem IsFirst.split {m : ℕ} {r₁ r₂ : Option ℕ} (h₁ : IsFirst P lo (min hi m) r₁)
    (h₂ : IsFirst P (max lo m) hi r₂) : IsFirst P lo hi (r₁.or r₂) := by
  cases r₁ with
  | some x =>
    obtain ⟨hx, hxhi, hPx, hmin⟩ := h₁
    exact ⟨hx, Nat.lt_of_lt_of_le hxhi (Nat.min_le_left _ _), hPx, hmin⟩
  | none =>
    cases r₂ with
    | none =>
      intro k hk hkhi
      rcases Nat.lt_or_ge k m with hkm | hkm
      · exact h₁ k hk (Nat.lt_min.mpr ⟨hkhi, hkm⟩)
      · exact h₂ k (Nat.max_le.mpr ⟨hk, hkm⟩) hkhi
    | some y =>
      obtain ⟨hy, hyhi, hPy, hmin⟩ := h₂
      refine ⟨Nat.le_trans (Nat.le_max_left _ _) hy, hyhi, hPy, fun k hk hky => ?_⟩
      rcases Nat.lt_or_ge k m with hkm | hkm
      · exact h₁ k hk (Nat.lt_min.mpr ⟨Nat.lt_trans hky hyhi, hkm⟩)
      · exact hmin k (Nat.max_le.mpr ⟨hk, hkm⟩) hky

end FirstHit
