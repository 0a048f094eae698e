import Mathlib

/-! # Walks in a weighted directed graph

A graph is given by adjacency lists `adj : α → List (α × ℕ)`: the edges out of `u`, each with
its target and weight.  A walk from a fixed source is built edge by edge at its end
(`IsWalk.snoc`), the way a shortest-path search extends the paths it has found, and is listed
by its vertices after the source: its length is its number of edges and its head is the vertex
after the source.

* `IsDist`: the least weight of a walk between two vertices;
* `IsWalk.exit`: a walk from inside a set to outside it leaves the set along an edge, after a
  prefix of weight at most the walk's less that edge's;
* `IsWalk.eq_of_adj_nil`: from a vertex without edges there is only the empty walk;
* `IsWalk.head_adj`: the first vertex of a walk is an out-neighbour of its source.
-/

namespace WeightedWalk

variable {α : Type*} (adj : α → List (α × ℕ))

/-- A walk from `s` to `t` along the adjacency lists, listed by its vertices after `s`, of
total weight `w`. -/
inductive IsWalk (s : α) : α → List α → ℕ → Prop
  | nil : IsWalk s s [] 0
  | snoc {t v : α} {vs : List α} {w c : ℕ} :
      IsWalk s t vs w → (v, c) ∈ adj t → IsWalk s v (vs ++ [v]) (w + c)

/-- `t` is reachable from `s`. -/
def Reachable (s t : α) : Prop := ∃ vs w, IsWalk adj s t vs w

/-- `d` is the least weight of a walk from `s` to `t`. -/
def IsDist (s t : α) (d : ℕ) : Prop :=
  (∃ vs, IsWalk adj s t vs d) ∧ ∀ vs w, IsWalk adj s t vs w → d ≤ w

variable {adj}

/-- **Leaving a set**: a walk from a vertex of `P` to one outside it has an edge from `P` to
its complement, reached by a prefix whose weight with that edge's is at most the walk's. -/
theorem IsWalk.exit {P : α → Prop} {s t : α} {vs : List α} {w : ℕ} (h : IsWalk adj s t vs w)
    (hs : P s) (ht : ¬ P t) :
    ∃ x y c vs' w', P x ∧ ¬ P y ∧ (y, c) ∈ adj x ∧ IsWalk adj s x vs' w' ∧ w' + c ≤ w := by
  induction h with
  | nil => exact absurd hs ht
  | @snoc t v vs w c hw hadj ih =>
    by_cases hpt : P t
    · exact ⟨t, v, c, vs, w, hpt, ht, hadj, hw, le_rfl⟩
    · obtain ⟨x, y, c', vs', w', hx, hy, he, hw', hle⟩ := ih hpt
      exact ⟨x, y, c', vs', w', hx, hy, he, hw', by omega⟩

/-- From a vertex without edges there is only the empty walk. -/
theorem IsWalk.eq_of_adj_nil {s t : α} {vs : List α} {w : ℕ} (h : IsWalk adj s t vs w) (hnil : adj s = []) :
    t = s ∧ vs = [] := by
  induction h with
  | nil => exact ⟨rfl, rfl⟩
  | snoc _ hadj ih =>
    obtain ⟨rfl, -⟩ := ih
    rw [hnil] at hadj
    cases hadj

/-- A walk that lists no vertex stays at its source, at weight 0. -/
theorem IsWalk.eq_of_nil {s t : α} {vs : List α} {w : ℕ} (h : IsWalk adj s t vs w) (hvs : vs = []) :
    t = s ∧ w = 0 := by
  cases h with
  | nil => exact ⟨rfl, rfl⟩
  | snoc _ _ => simp at hvs

/-- The first vertex a walk lists is the end of an edge out of its source. -/
theorem IsWalk.head_adj {s t h : α} {vs : List α} {w : ℕ} (hw : IsWalk adj s t vs w)
    (hh : vs.head? = some h) : ∃ c, (h, c) ∈ adj s := by
  induction hw with
  | nil => cases hh
  | @snoc t v vs w c hw' hadj ih =>
    cases vs with
    | nil =>
      obtain ⟨rfl, -⟩ := hw'.eq_of_nil rfl
      simp only [List.nil_append, List.head?_cons, Option.some.injEq] at hh
      exact ⟨c, hh ▸ hadj⟩
    | cons a vs => exact ih (by simpa using hh)

theorem IsWalk.reachable {s t : α} {vs : List α} {w : ℕ} (h : IsWalk adj s t vs w) : Reachable adj s t :=
  ⟨vs, w, h⟩

/-- A walk of the least weight gives the distance. -/
theorem IsDist.of_walk {s t : α} {vs : List α} {d : ℕ} (h : IsWalk adj s t vs d)
    (hle : ∀ vs' w, IsWalk adj s t vs' w → d ≤ w) : IsDist adj s t d :=
  ⟨⟨vs, h⟩, hle⟩

end WeightedWalk
