import CodeAudit.Proofs.Detect.Pairs

/-!
# Rows of an edited list

If one token of a text is replaced, the only rows that can get lost are those that cover it, and these begin at no more
than `k` positions. So the similarity of the rows before and after the edit has a lower bound that depends on their
number and length alone.

## Main definitions

* `Fingerprint.DifferAt` — lists that differ in one position.

## Main results

* `Fingerprint.card_windows_sdiff_le` — at most `k` rows get lost.
* `Fingerprint.edited_rows_similar` — the rows of lists that differ in one position, and their similarity.
-/

namespace CodeAudit.Fingerprint

variable {α : Type} {xs ys : List α} {i : ℕ}

/-- Lists of one length that differ in one position and in no other. -/
structure DifferAt (xs ys : List α) (i : ℕ) : Prop where
  length_eq : xs.length = ys.length
  ne_iff : ∀ j, xs[j]? ≠ ys[j]? ↔ j = i

lemma DifferAt.symm (h : DifferAt xs ys i) : DifferAt ys xs i :=
  ⟨h.length_eq.symm, fun j => ne_comm.trans (h.ne_iff j)⟩

variable [DecidableEq α]

/-- A row that does not cover the edited position is a row of the other list too. -/
lemma DifferAt.mem_windows (h : DifferAt xs ys i) {j k : ℕ} (hfits : j + k ≤ xs.length) (hapart : i < j ∨ j + k ≤ i) :
    (xs.drop j).take k ∈ windows k ys := by
  have hsame : (xs.drop j).take k = (ys.drop j).take k := by
    refine List.ext_getElem? fun l => ?_
    rw [List.getElem?_take, List.getElem?_take]
    split_ifs with hl
    · rw [List.getElem?_drop, List.getElem?_drop]
      by_contra hne
      have := (h.ne_iff (j + l)).mp hne
      omega
    · rfl
  rw [hsame, Fingerprint.mem_windows]
  exact infix_take_drop (h.length_eq ▸ hfits)

/-- **At most `k` rows get lost** by an edit of one position: those that begin less than `k` positions before it. -/
lemma card_windows_sdiff_le (h : DifferAt xs ys i) (k : ℕ) : (windows k xs \ windows k ys).card ≤ k := by
  have hcover : windows k xs \ windows k ys ⊆ (Finset.Ico (i + 1 - k) (i + 1)).image fun j => (xs.drop j).take k := by
    intro w hw
    obtain ⟨hxs, hys⟩ := Finset.mem_sdiff.mp hw
    obtain ⟨⟨front, back, hparts⟩, hlength⟩ := mem_windows.mp hxs
    have hrow : (xs.drop front.length).take k = w := by simp [← hparts, ← hlength]
    have hfits : front.length + k ≤ xs.length := by simp [← hparts, ← hlength]
    refine Finset.mem_image.mpr ⟨front.length, Finset.mem_Ico.mpr ?_, hrow⟩
    by_contra hapart
    exact hys (hrow ▸ h.mem_windows hfits (by omega))
  calc (windows k xs \ windows k ys).card
      ≤ ((Finset.Ico (i + 1 - k) (i + 1)).image fun j => (xs.drop j).take k).card := Finset.card_le_card hcover
    _ ≤ (Finset.Ico (i + 1 - k) (i + 1)).card := Finset.card_image_le
    _ ≤ k := by rw [Nat.card_Ico]; omega

/-- Sets that lack at most `k` items of each other have a share of common items. -/
lemma le_share_of_card_sdiff_le {A B : Finset α} {k : ℕ} (hA : (A \ B).card ≤ k) (hB : (B \ A).card ≤ k)
    (hne : A.Nonempty) : ((A.card : ℚ) - k) / (A.card + k) ≤ (A ∩ B).card / (A ∪ B).card := by
  have hcommon : A.card ≤ (A ∩ B).card + k := by
    have := Finset.card_sdiff_add_card_inter A B
    omega
  have hunion : (A ∪ B).card ≤ A.card + k := by
    have := Finset.card_sdiff_add_card B A
    rw [Finset.union_comm]
    omega
  have hpos : 0 < A.card := hne.card_pos
  have hpos' : 0 < (A ∪ B).card := (hne.mono Finset.subset_union_left).card_pos
  have hcommon : ((A.card : ℚ) - k) ≤ (A ∩ B).card := by
    rw [sub_le_iff_le_add]
    exact_mod_cast hcommon
  calc ((A.card : ℚ) - k) / (A.card + k) ≤ (A ∩ B).card / (A.card + k) := by gcongr
    _ ≤ (A ∩ B).card / (A ∪ B).card := by
      gcongr
      exact_mod_cast hunion

lemma shingles_natCast (xs : List α) (k : ℕ) : shingles xs (.int k) = .ok (rows xs k) := by
  rw [shingles_int]
  split_ifs with hshort
  · rw [rows_eq_nil hshort]
  · rfl

/-- **The rows of lists that differ in one position.** Each list has as rows its contiguous parts of the given length,
and none if it is shorter. At most as many rows as a row is long are in one list only, so the quotient of which the
similarity is the nearest double has a lower bound. -/
theorem edited_rows_similar (h : DifferAt xs ys i) (k : ℕ) :
    ∃ a b, shingles xs (.int k) = .ok a ∧ shingles ys (.int k) = .ok b ∧ a.Nodup ∧ b.Nodup ∧
      (∀ w, w ∈ a ↔ w <:+: xs ∧ w.length = k) ∧ (xs.length < k → a = []) ∧
      (a.toFinset \ b.toFinset).card ≤ k ∧ (b.toFinset \ a.toFinset).card ≤ k ∧
      (a ≠ [] → b ≠ [] → ∃ common union : ℕ, overlap a b = (common, union) ∧ 0 < union ∧
        jaccard a b = Number.ratio common union ∧ ((a.length : ℚ) - k) / (a.length + k) ≤ common / union) := by
  have hlost := card_windows_sdiff_le h k
  have hgained := card_windows_sdiff_le h.symm k
  rw [← toFinset_rows, ← toFinset_rows] at hlost hgained
  have hxs := nodup_rows xs k
  have hys := nodup_rows ys k
  refine ⟨rows xs k, rows ys k, shingles_natCast xs k, shingles_natCast ys k, hxs, hys, fun w => mem_rows,
    fun hshort => rows_eq_nil (by exact_mod_cast hshort), hlost, hgained, fun hne _ => ?_⟩
  have hrows : (rows xs k).toFinset.Nonempty := (List.toFinset_nonempty_iff _).mpr hne
  refine ⟨_, _, overlap_eq hxs hys, (hrows.mono Finset.subset_union_left).card_pos, jaccard_eq hxs hys hne, ?_⟩
  rw [← List.toFinset_card_of_nodup hxs]
  exact le_share_of_card_sdiff_le hlost hgained hrows

/-- The tokens of a call, with a token for the second argument. -/
def callTokens (argument : String) : List String :=
  ["ID", "(", "ID", ",", argument, ")", ";"]

/-- A number becomes a name: of six rows of two tokens four are kept, and two are new, so the bound is reached. -/
theorem edited_rows_call : DifferAt (callTokens "NUM") (callTokens "ID") 4 ∧
    ∃ a b, shingles (callTokens "NUM") (.int 2) = .ok a ∧ shingles (callTokens "ID") (.int 2) = .ok b ∧
      a.length = 6 ∧ overlap a b = (4, 8) ∧ ((6 : ℚ) - 2) / (6 + 2) ≤ 4 / 8 := by
  have hdiffer : DifferAt (callTokens "NUM") (callTokens "ID") 4 :=
    ⟨rfl, fun j => by rcases j with _ | _ | _ | _ | _ | _ | _ | j <;> simp [callTokens]⟩
  have hsix : (rows (callTokens "NUM") 2).length = 6 := by decide +kernel
  have hshared : overlap (rows (callTokens "NUM") 2) (rows (callTokens "ID") 2) = (4, 8) := by decide +kernel
  obtain ⟨a, b, ha, hb, -, -, -, -, -, -, hshare⟩ := edited_rows_similar hdiffer 2
  obtain rfl := Except.ok.inj ((shingles_natCast _ 2).symm.trans ha)
  obtain rfl := Except.ok.inj ((shingles_natCast _ 2).symm.trans hb)
  obtain ⟨common, union, hoverlap, -, -, hle⟩ := hshare (by decide +kernel) (by decide +kernel)
  obtain ⟨rfl, rfl⟩ := Prod.mk.inj (hshared.symm.trans hoverlap)
  refine ⟨hdiffer, _, _, ha, hb, hsix, hshared, ?_⟩
  rw [Nat.cast_ofNat, hsix] at hle
  exact_mod_cast hle

end CodeAudit.Fingerprint
