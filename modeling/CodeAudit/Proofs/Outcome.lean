import Mathlib

/-!
# Rows of steps that may fail

Steps that may fail are run one after the other, and the first failure ends the row.

## Main results

* `Outcome.mapM_eq_ok` — if every step succeeds, so does the row.
* `Outcome.exists_of_mem_mapM` — every result of a row comes from one of its steps.
-/

namespace CodeAudit.Outcome

open List

variable {ε α β : Type}

variable {x : Except ε α} {f g : α → Except ε β} {y : β} {xs : List α} {ys : List β} {γ : Type} {e : ε}

/-- A step succeeds with another behind it exactly if both do. -/
lemma bind_eq_ok : x >>= f = .ok y ↔ ∃ a, x = .ok a ∧ f a = .ok y := by
  cases x with
  | error e =>
    constructor
    · rintro ⟨⟩
    · rintro ⟨a, ⟨⟩, -⟩
  | ok a =>
    constructor
    · exact fun h => ⟨a, rfl, h⟩
    · rintro ⟨a', ha, h⟩
      exact Except.ok.inj ha ▸ h

lemma map_eq_ok {h : α → β} : x.map h = .ok y ↔ ∃ a, x = .ok a ∧ h a = y := by
  cases x <;> simp [Except.map]

/-- Telling a failure in other words makes no success of it. -/
lemma mapError_eq_ok {ε' : Type} {f : ε → ε'} {y : α} : x.mapError f = .ok y ↔ x = .ok y := by
  cases x with
  | error e => simp [Except.mapError]
  | ok a => simp [Except.mapError]

/-- What is left of a step without its failure is what it succeeded with. -/
lemma eq_ok_of_toOption {y : α} (h : x.toOption = some y) : x = .ok y := by
  cases x with
  | error e => cases h
  | ok a => exact congrArg Except.ok (Option.some.inj h)

/-- A step of whose result something can be told succeeds. -/
lemma exists_ok_of_map {look : α → β} (h : x.toOption.map look = some y) : ∃ a, x = .ok a ∧ look a = y := by
  obtain ⟨a, ha, hlook⟩ := Option.map_eq_some_iff.mp h
  exact ⟨a, eq_ok_of_toOption ha, hlook⟩

/-- A row succeeds exactly if all its steps do. -/
lemma mapM_eq_ok_iff : xs.mapM f = .ok ys ↔ xs.map f = ys.map .ok := by
  induction xs generalizing ys with
  | nil =>
    cases ys with
    | nil => simp [pure, Except.pure]
    | cons y ys => simp [pure, Except.pure]
  | cons x xs ih =>
    rw [mapM_cons, bind_eq_ok]
    constructor
    · rintro ⟨z, hz, hrest⟩
      obtain ⟨zs, hzs, hys⟩ := bind_eq_ok.mp hrest
      obtain rfl : z :: zs = ys := Except.ok.inj hys
      rw [map_cons, map_cons, hz, ih.mp hzs]
    · intro h
      cases ys with
      | nil => simp at h
      | cons y ys =>
        rw [map_cons, map_cons, cons.injEq] at h
        exact ⟨y, h.1, bind_eq_ok.mpr ⟨ys, ih.mpr h.2, rfl⟩⟩

/-- Rows whose steps agree are the same. -/
lemma mapM_congr (h : ∀ x ∈ xs, f x = g x) : xs.mapM f = xs.mapM g := by
  induction xs with
  | nil => rfl
  | cons x xs ih =>
    rw [mapM_cons, mapM_cons, h x mem_cons_self, ih fun y hy => h y (mem_cons_of_mem _ hy)]

/-- If every step succeeds, the row gives the results in order. -/
lemma mapM_eq_ok {g : α → β} (h : ∀ x ∈ xs, f x = .ok (g x)) : xs.mapM f = .ok (xs.map g) := by
  rw [mapM_eq_ok_iff, map_map]
  exact map_congr_left h

/-- The results of a row of steps that succeed are related pair by pair as the steps are. -/
lemma pairwise_mapM_iff {R : β → β → Prop} (h : xs.mapM f = .ok ys) :
    ys.Pairwise R ↔ xs.Pairwise fun x x' => ∀ y y', f x = .ok y → f x' = .ok y' → R y y' := by
  have hmap := congrArg
    (List.Pairwise fun a b : Except ε β => ∀ y y', a = .ok y → b = .ok y' → R y y') (mapM_eq_ok_iff.mp h)
  rw [pairwise_map, pairwise_map, eq_iff_iff] at hmap
  rw [hmap]
  simp

/-- Every result of a row comes from one of its steps. -/
lemma exists_of_mem_mapM (h : xs.mapM f = .ok ys) (hy : y ∈ ys) : ∃ x ∈ xs, f x = .ok y := by
  have hmem : Except.ok y ∈ xs.map f := by
    rw [mapM_eq_ok_iff.mp h]
    exact mem_map_of_mem hy
  exact mem_map.mp hmem

/-- Each step of a row that succeeds gives one of the results. -/
lemma exists_mem_of_mapM (h : xs.mapM f = .ok ys) {x : α} (hx : x ∈ xs) : ∃ y ∈ ys, f x = .ok y := by
  have hmem : f x ∈ ys.map .ok := by
    rw [← mapM_eq_ok_iff.mp h]
    exact mem_map_of_mem hx
  obtain ⟨y, hy, heq⟩ := mem_map.mp hmem
  exact ⟨y, hy, heq.symm⟩

lemma mem_of_mapM (h : xs.mapM f = .ok ys) {x : α} (hx : x ∈ xs) (hy : f x = .ok y) : y ∈ ys := by
  obtain ⟨z, hz, heq⟩ := exists_mem_of_mapM h hx
  exact Except.ok.inj (heq.symm.trans hy) ▸ hz

/-- What is known of the result of every step is known of the results of a row. -/
lemma map_eq_of_mapM (h : xs.mapM f = .ok ys) {k : β → γ}
    {l : α → γ} (hstep : ∀ x ∈ xs, ∀ y, f x = .ok y → k y = l x) : ys.map k = xs.map l := by
  induction xs generalizing ys with
  | nil =>
    obtain rfl := Except.ok.inj h
    rfl
  | cons x xs ih =>
    rw [mapM_cons] at h
    obtain ⟨y, hy, h⟩ := bind_eq_ok.mp h
    obtain ⟨rest, hrest, h⟩ := bind_eq_ok.mp h
    obtain rfl := Except.ok.inj h
    rw [map_cons, map_cons, hstep x mem_cons_self y hy,
      ih hrest fun z hz => hstep z (mem_cons_of_mem _ hz)]

/-- A row fails as one of its steps does. -/
lemma exists_of_mapM_eq_error (h : xs.mapM f = .error e) : ∃ x ∈ xs, f x = .error e := by
  induction xs with
  | nil => simp [pure, Except.pure] at h
  | cons x xs ih =>
    rw [mapM_cons] at h
    cases hx : f x with
    | error e' =>
      obtain rfl : e' = e := by simpa [hx, bind, Except.bind] using h
      exact ⟨x, mem_cons_self, hx⟩
    | ok y =>
      cases hxs : xs.mapM f with
      | error e' =>
        obtain rfl : e' = e := by simpa [hx, hxs, bind, Except.bind] using h
        obtain ⟨z, hz, hfz⟩ := ih hxs
        exact ⟨z, mem_cons_of_mem _ hz, hfz⟩
      | ok ys => simp [hx, hxs, bind, Except.bind, pure, Except.pure] at h

/-- If every step succeeds, so does the row. -/
lemma exists_mapM (h : ∀ x ∈ xs, ∃ y, f x = .ok y) : ∃ ys, xs.mapM f = .ok ys := by
  cases hrow : xs.mapM f with
  | ok ys => exact ⟨ys, rfl⟩
  | error e =>
    obtain ⟨x, hx, he⟩ := exists_of_mapM_eq_error hrow
    obtain ⟨y, hy⟩ := h x hx
    rw [hy] at he
    cases he

/-- A row whose steps can only fail for one reason fails for that reason exactly if one of them does. -/
lemma mapM_eq_error_iff (h : ∀ x ∈ xs, ∀ e', f x = .error e' → e' = e) :
    xs.mapM f = .error e ↔ ∃ x ∈ xs, f x = .error e := by
  refine ⟨exists_of_mapM_eq_error, ?_⟩
  rintro ⟨x, hx, hfx⟩
  cases hxs : xs.mapM f with
  | error e' =>
    obtain ⟨y, hy, hfy⟩ := exists_of_mapM_eq_error hxs
    rw [h y hy e' hfy]
  | ok ys =>
    obtain ⟨y, -, hy⟩ := exists_mem_of_mapM hxs hx
    rw [hfx] at hy
    cases hy

/-- Two rows of steps that agree, or succeed with results of which the same is kept: both fail, or the same is kept
of both. -/
lemma mapM_cases_of_agree (kept : β → List γ)
    (h : ∀ x ∈ xs, g x = f x ∨ ∃ y z, f x = .ok y ∧ g x = .ok z ∧ kept z = kept y) :
    (∃ e, xs.mapM f = .error e ∧ xs.mapM g = .error e) ∨
      ∃ ys zs, xs.mapM f = .ok ys ∧ xs.mapM g = .ok zs ∧ zs.flatMap kept = ys.flatMap kept := by
  induction xs with
  | nil => exact .inr ⟨[], [], rfl, rfl, rfl⟩
  | cons x xs ih =>
    have ih := ih fun y hy => h y (mem_cons_of_mem _ hy)
    have hx : (∃ e, f x = .error e ∧ g x = .error e) ∨ ∃ y z, f x = .ok y ∧ g x = .ok z ∧ kept z = kept y := by
      rcases h x mem_cons_self with heq | hkept
      · cases hf : f x with
        | error e => exact .inl ⟨e, rfl, heq.trans hf⟩
        | ok y => exact .inr ⟨y, y, rfl, heq.trans hf, rfl⟩
      · exact .inr hkept
    rw [mapM_cons, mapM_cons]
    rcases hx with ⟨e, hf, hg⟩ | ⟨y, z, hf, hg, hyz⟩
    · exact .inl ⟨e, by rw [hf]; rfl, by rw [hg]; rfl⟩
    · rcases ih with ⟨e, hfs, hgs⟩ | ⟨ys, zs, hfs, hgs, hkept⟩
      · exact .inl ⟨e, by rw [hf, hfs]; rfl, by rw [hg, hgs]; rfl⟩
      · refine .inr ⟨y :: ys, z :: zs, by rw [hf, hfs]; rfl, by rw [hg, hgs]; rfl, ?_⟩
        rw [flatMap_cons, flatMap_cons, hyz, hkept]

/-- A row whose tests succeed keeps the items that pass. -/
lemma filterM_eq_ok {f : α → Except ε Bool} {g : α → Bool} (h : ∀ x ∈ xs, f x = .ok (g x)) :
    xs.filterM f = .ok (xs.filter g) := by
  -- the items that passed so far are kept in reverse
  have haux : ∀ kept, xs.filterAuxM f kept = .ok ((xs.filter g).reverse ++ kept) := by
    induction xs with
    | nil => exact fun kept => rfl
    | cons x xs ih =>
      intro kept
      have ih := ih fun y hy => h y (mem_cons_of_mem _ hy)
      rw [filterAuxM, h x mem_cons_self]
      change xs.filterAuxM f _ = _
      rw [ih, filter_cons]
      cases g x <;> simp
  rw [filterM, haux]
  simp [bind, Except.bind, pure, Except.pure]

/-- A row of tests succeeds exactly if each test does. -/
lemma exists_filterM_iff {f : α → Except ε Bool} :
    (∃ ys, xs.filterM f = .ok ys) ↔ ∀ x ∈ xs, ∃ passes, f x = .ok passes := by
  constructor
  · rintro ⟨ys, h⟩
    rw [filterM] at h
    obtain ⟨passed, hpassed, -⟩ := bind_eq_ok.mp h
    clear h
    generalize [] = kept at hpassed
    induction xs generalizing kept with
    | nil => simp
    | cons x xs ih =>
      rw [filterAuxM] at hpassed
      obtain ⟨passes, hpasses, hrest⟩ := bind_eq_ok.mp hpassed
      exact forall_mem_cons.mpr ⟨⟨passes, hpasses⟩, ih _ hrest⟩
  · intro h
    choose! g hg using h
    exact ⟨_, filterM_eq_ok hg⟩

/-- The items that a row of tests keeps are those that pass, in their order. -/
lemma of_filterM_eq_ok {f : α → Except ε Bool} {ys : List α} (h : xs.filterM f = .ok ys) :
    ys.Sublist xs ∧ ∀ x ∈ xs, x ∈ ys ↔ f x = .ok true := by
  have htests := exists_filterM_iff.mp ⟨ys, h⟩
  choose! g hg using htests
  obtain rfl : xs.filter g = ys := Except.ok.inj ((filterM_eq_ok hg).symm.trans h)
  refine ⟨filter_sublist, fun x hx => ?_⟩
  rw [mem_filter, hg x hx]
  simp [hx]

end CodeAudit.Outcome
