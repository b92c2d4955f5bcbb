import CodeAudit.Proofs.Number.Share
import CodeAudit.Proofs.Score.Range

/-!
# Numbers for rankings

A ranking compares numbers, adds up integers and multiplies shares. This module says what it needs of its numbers, and
that exact numbers and doubles have it: exact numbers for all integers that are not negative, doubles for those below the
fifty-third power of two.

## Main definitions

* `Quantity.Gauge` — what a ranking needs of its numbers.

## Main results

* `Quantity.gauge_rat`, `Quantity.gauge_float` — numbers that serve for rankings.
-/

namespace CodeAudit.Quantity

open Number

variable {α β : Type} [Quantity α] [LinearOrder β]

/-- A whole number. -/
def whole (n : ℤ) : α := fraction n 1

/-- A number that is less than another one or equal to it. -/
def AtMost (x y : α) : Prop :=
  less x y = true ∨ equal x y = true

/-- **What a ranking needs of its numbers.** Those that are sound are compared by a key. Integers that are exact keep
their order and are added without loss. The quotient of an exact integer by one that is not less is a share, and so is
the product of shares; and shares lie between zero and one. -/
structure Gauge (key : α → β) (Sound Share : α → Prop) (Exact : ℤ → Prop) : Prop where
  less_eq : ∀ {x y}, Sound x → Sound y → less x y = decide (key x < key y)
  equal_eq : ∀ {x y}, Sound x → Sound y → equal x y = decide (key x = key y)
  exact_one : Exact 1
  nonneg : ∀ {n}, Exact n → 0 ≤ n
  exact_of_le : ∀ {m n}, 0 ≤ m → m ≤ n → Exact n → Exact m
  sound_whole : ∀ {n}, Exact n → Sound (whole n)
  key_lt : ∀ {m n}, Exact m → Exact n → m < n → key (whole m) < key (whole n)
  add_whole : ∀ {m n}, Exact m → Exact n → Exact (m + n) → add (whole m) (whole n) = (whole (m + n) : α)
  share_div : ∀ {m n}, Exact m → Exact n → m ≤ n → 0 < n → Share (div (whole m) (whole n))
  share_mul : ∀ {x y}, Share x → Share y → Share (mul x y)
  sound_of_share : ∀ {x}, Share x → Sound x
  bounds : ∀ {x}, Share x → key (whole 0) ≤ key x ∧ key x ≤ key (whole 1)

namespace Gauge

variable {key : α → β} {Sound Share : α → Prop} {Exact : ℤ → Prop} (g : Gauge key Sound Share Exact)

variable {x y : α}

include g

lemma exact_zero : Exact 0 :=
  g.exact_of_le le_rfl Int.zero_lt_one.le g.exact_one

lemma less_iff (hx : Sound x) (hy : Sound y) : less x y = true ↔ key x < key y := by
  rw [g.less_eq hx hy, decide_eq_true_iff]

lemma equal_iff (hx : Sound x) (hy : Sound y) : equal x y = true ↔ key x = key y := by
  rw [g.equal_eq hx hy, decide_eq_true_iff]

lemma not_equal_of_less (hx : Sound x) (hy : Sound y) (h : less x y = true) : equal y x = false := by
  rw [g.equal_eq hy hx, decide_eq_false_iff_not]
  exact ((g.less_iff hx hy).mp h).ne'

lemma less_whole {m n : ℤ} (hm : Exact m) (hn : Exact n) : less (whole m : α) (whole n) = decide (m < n) := by
  rw [g.less_eq (g.sound_whole hm) (g.sound_whole hn), decide_eq_decide]
  refine ⟨fun h => ?_, g.key_lt hm hn⟩
  by_contra hle
  rcases (not_lt.mp hle).lt_or_eq with hlt | rfl
  · exact (g.key_lt hn hm hlt).not_gt h
  · exact lt_irrefl _ h

lemma equal_whole {m n : ℤ} (hm : Exact m) (hn : Exact n) : equal (whole m : α) (whole n) = decide (m = n) := by
  rw [g.equal_eq (g.sound_whole hm) (g.sound_whole hn), decide_eq_decide]
  refine ⟨fun h => ?_, fun h => by rw [h]⟩
  rcases lt_trichotomy m n with hlt | heq | hgt
  · exact absurd h (g.key_lt hm hn hlt).ne
  · exact heq
  · exact absurd h (g.key_lt hn hm hgt).ne'

lemma atMost_iff (hx : Sound x) (hy : Sound y) : AtMost x y ↔ key x ≤ key y := by
  rw [AtMost, g.less_iff hx hy, g.equal_iff hx hy, le_iff_lt_or_eq]

end Gauge

/-- **Exact numbers serve for rankings**, with all integers that are not negative. -/
lemma gauge_rat : Gauge (id : ℚ → ℚ) (fun _ => True) (fun x => 0 ≤ x ∧ x ≤ 1) (fun n => 0 ≤ n) where
  less_eq _ _ := rfl
  equal_eq _ _ := rfl
  exact_one := Int.zero_lt_one.le
  nonneg h := h
  exact_of_le h _ _ := h
  sound_whole _ := trivial
  key_lt _ _ h := by
    simpa [whole, fraction] using h
  add_whole _ _ _ := by
    simp [whole, fraction, add]
  share_div {m n} hm _ hle hpos := by
    have hpos' : (0 : ℚ) < n := by exact_mod_cast hpos
    simp only [whole, fraction, div, Nat.cast_one, div_one]
    exact ⟨div_nonneg (by exact_mod_cast hm) hpos'.le, (div_le_one hpos').mpr (by exact_mod_cast hle)⟩
  share_mul hx hy := ⟨mul_nonneg hx.1 hy.1, mul_le_one₀ hx.2 hy.1 hy.2⟩
  sound_of_share _ := trivial
  bounds h := by
    simpa [whole, fraction] using h

lemma whole_eq_ofInt {n : ℕ} (hn : n < 2 ^ 53) : (whole n : Float) = ofInt n :=
  ofInt_div_one hn

/-- **Doubles serve for rankings**, with all integers that they hold without loss. -/
lemma gauge_float : Gauge Number.rank (fun x => x.isNaN = false) (fun x => IsShare x.toModel.unpack)
    (fun n => 0 ≤ n ∧ n < 2 ^ 53) where
  less_eq hx hy := decide_eq_decide.mpr (lt_iff_rank_lt hx hy)
  equal_eq hx hy := beq_eq hx hy
  exact_one := by decide
  nonneg h := h.1
  exact_of_le hm hle hn := ⟨hm, hle.trans_lt hn.2⟩
  sound_whole {n} h := by
    lift n to ℕ using h.1
    rw [whole_eq_ofInt (by exact_mod_cast h.2)]
    exact isNaN_ofInt n
  key_lt {m n} hm hn hlt := by
    lift m to ℕ using hm.1
    lift n to ℕ using hn.1
    rw [whole_eq_ofInt (by exact_mod_cast hm.2), whole_eq_ofInt (by exact_mod_cast hn.2)]
    exact rank_ofInt_lt (by exact_mod_cast hlt) (by exact_mod_cast hn.2)
  add_whole {m n} hm hn hsum := by
    lift m to ℕ using hm.1
    lift n to ℕ using hn.1
    have hbound : m + n < 2 ^ 53 := by exact_mod_cast hsum.2
    rw [whole_eq_ofInt (by omega), whole_eq_ofInt (by omega), ← Nat.cast_add, whole_eq_ofInt hbound]
    exact ofInt_add hbound
  share_div {m n} hm hn hle hpos := by
    lift m to ℕ using hm.1
    lift n to ℕ using hn.1
    rw [whole_eq_ofInt (by exact_mod_cast hm.2), whole_eq_ofInt (by exact_mod_cast hn.2)]
    exact isShare_div (by exact_mod_cast hle) (by exact_mod_cast hpos) (by exact_mod_cast hn.2)
  share_mul := isShare_mul
  sound_of_share h := h.bounds.1
  bounds h := h.bounds.2

end CodeAudit.Quantity
