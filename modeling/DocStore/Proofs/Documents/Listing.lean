import DocStore.Proofs.Documents.Changes
import Mathlib.Algebra.Group.Int.Defs

/-!
Ids in the order in which scripts list them.

A script orders ids by the doubles that their texts read as, and where these are the same by the texts themselves
(`Sooner`). This determines the order, so that both ways of listing come to the same. Up to `2 ^ 53` the doubles are
the ids themselves, and ascending ids stay as they are.
-/

namespace DocStore

open DocStore.Script

/-- The text is listed before the other: it reads as a smaller double, or as the same one and is smaller itself. -/
def Sooner (a b : String) : Prop :=
  rankOf a < rankOf b ∨ rankOf a = rankOf b ∧ a < b

theorem Sooner.rankOf_le {a b : String} (h : Sooner a b) : rankOf a ≤ rankOf b :=
  h.elim Int.le_of_lt fun hsame => Int.le_of_eq hsame.1

theorem Sooner.asymm {a b : String} (h : Sooner a b) : ¬Sooner b a := by
  rintro (hlt | ⟨heq, hlt⟩)
  · exact absurd h.rankOf_le (Int.not_le.2 hlt)
  · rcases h with hlt' | ⟨-, hlt'⟩
    · exact absurd hlt' (by omega)
    · exact String.lt_irrefl _ (String.lt_trans hlt hlt')

/-- Ids that are positive and exact as doubles. -/
def Exact (id : Int) : Prop :=
  0 < id ∧ id ≤ 2 ^ 53

/-- The text of a positive id reads as the double nearest to it. -/
theorem rankOf_ofInt {id : Int} (hpos : 0 < id) (hlt : id < 10 ^ 20) :
    rankOf (Decimal.ofInt id) = Binary64.roundRatio id.toNat 1 := by
  obtain ⟨n, rfl⟩ := Int.eq_ofNat_of_zero_le (Int.le_of_lt hpos)
  have hlt : n < 10 ^ 20 := by omega
  simp [rankOf, Decimal.ofInt_natCast, Binary64.ofText?_ofNat, Binary64.ofDigits_digits (by omega) hlt,
    Binary64.rank]

theorem rankOf_lt {a b : Int} (ha : Exact a) (hb : Exact b) (h : a < b) :
    rankOf (Decimal.ofInt a) < rankOf (Decimal.ofInt b) := by
  obtain ⟨hpos, hle⟩ := ha
  obtain ⟨hpos', hle'⟩ := hb
  rw [rankOf_ofInt hpos (by omega), rankOf_ofInt hpos' (by omega)]
  exact Int.ofNat_lt.2 (Binary64.roundRatio_lt (by omega) (by omega) (by omega))

theorem eq_of_rankOf_le {a b : Int} (ha : Exact a) (hb : Exact b)
    (hab : rankOf (Decimal.ofInt a) ≤ rankOf (Decimal.ofInt b))
    (hba : rankOf (Decimal.ofInt b) ≤ rankOf (Decimal.ofInt a)) : a = b := by
  rcases Int.lt_trichotomy a b with hlt | heq | hlt
  · exact absurd (rankOf_lt ha hb hlt) (Int.not_lt.2 hba)
  · exact heq
  · exact absurd (rankOf_lt hb ha hlt) (Int.not_lt.2 hab)

section Texts

variable {ids : List Int}

/-- A script lists every holder once, in whatever order. -/
theorem perm_foundTexts (hnodup : ids.Nodup) :
    (foundTexts ids).Perm (ids.map Decimal.ofInt) := by
  refine (List.mergeSort_perm _ _).trans ((List.perm_ext_iff_of_nodup (SortedMap.keys_nodup _) ?_).2 ?_)
  · exact hnodup.map fun _ _ => Decimal.ofInt_injective
  · intro text
    rw [SortedMap.mem_keys_iff, NameSet.contains_ofList]

theorem perm_listedTexts (hnodup : ids.Nodup) : (listedTexts ids).Perm (ids.map Decimal.ofInt) :=
  ((List.mergeSort_perm _ _).map Prod.fst).trans (keys_scores hnodup)

/-- Sorting ascending texts by their doubles leaves those with the same double in their order. -/
theorem pairwise_mergeSort_rank {texts : List String} (h : texts.Pairwise (· < ·)) :
    (texts.mergeSort fun a b => decide (rankOf a ≤ rankOf b)).Pairwise Sooner := by
  have htrans : ∀ a b c : String, decide (rankOf a ≤ rankOf b) = true → decide (rankOf b ≤ rankOf c) = true →
      decide (rankOf a ≤ rankOf c) = true := by
    simp only [decide_eq_true_eq]
    exact fun a b c hab hbc => Int.le_trans hab hbc
  have htotal : ∀ a b : String, (decide (rankOf a ≤ rankOf b) || decide (rankOf b ≤ rankOf a)) = true := by
    intro a b
    simpa using Int.le_total (rankOf a) (rankOf b)
  have hsorted := List.pairwise_mergeSort htrans htotal texts
  refine List.pairwise_iff_forall_sublist.2 fun {a b} hsub => ?_
  have hle : rankOf a ≤ rankOf b := of_decide_eq_true (List.pairwise_iff_forall_sublist.1 hsorted hsub)
  rcases Int.lt_or_eq_of_le hle with hlt | heq
  · exact .inl hlt
  · -- Texts with the double of `a` are as many before as after, so that these are the same list.
    let same : String → Bool := fun text => decide (rankOf text = rankOf a)
    have hkept : (texts.filter same).Sublist (texts.mergeSort fun a b => decide (rankOf a ≤ rankOf b)) := by
      refine List.sublist_mergeSort htrans htotal (List.pairwise_of_forall_mem_list fun x hx y hy => ?_)
        List.filter_sublist
      have hx' : rankOf x = rankOf a := by simpa [same] using (List.mem_filter.1 hx).2
      have hy' : rankOf y = rankOf a := by simpa [same] using (List.mem_filter.1 hy).2
      exact decide_eq_true (by omega)
    have hfilter : texts.filter same = (texts.mergeSort fun a b => decide (rankOf a ≤ rankOf b)).filter same := by
      have hsub' := hkept.filter same
      simp only [List.filter_filter, Bool.and_self] at hsub'
      exact hsub'.eq_of_length ((List.mergeSort_perm texts _).filter same).length_eq.symm
    have hpair : [a, b].Sublist (texts.filter same) := by
      have hfiltered := hsub.filter same
      rwa [← hfilter, List.filter_eq_self.2 (by simp [same, heq])] at hfiltered
    exact .inr ⟨heq, List.pairwise_iff_forall_sublist.1 h (hpair.trans List.filter_sublist)⟩

/-- Holders are found in the order of their texts, and are sorted by their doubles. -/
theorem sooner_foundTexts (ids : List Int) : (foundTexts ids).Pairwise Sooner :=
  pairwise_mergeSort_rank (List.pairwise_map.2 (NameSet.ofList (ids.map Decimal.ofInt)).ascending)

/-- The score of a live id is the double that its text reads as. -/
theorem rank_of_mem_scores {text : String} {score : Binary64} (h : (text, score) ∈ (scores ids).entries) :
    score.rank = rankOf text := by
  have hfind : (scores ids).find? text = some score := SortedMap.find?_eq_some_iff.2 h
  rw [find?_scores] at hfind
  split at hfind
  · rename_i hmem
    cases hfind
    obtain ⟨id, -, rfl⟩ := List.mem_map.1 hmem
    simp [rankOf, ofText?_scoreOf]
  · cases hfind

/-- Live ids are sorted by their scores, and those with one score by their texts. -/
theorem sooner_listedTexts (hnodup : ids.Nodup) : (listedTexts ids).Pairwise Sooner := by
  have hsorted : (listedTexts ids).Pairwise fun a b => rankOf a < rankOf b ∨ rankOf a = rankOf b ∧ a ≤ b := by
    refine List.pairwise_map.2 ((List.pairwise_mergeSort (fun a b c hab hbc => ?_) (fun a b => ?_) _).imp_of_mem
      fun {a b} ha hb hab => ?_)
    · simp only [Bool.or_eq_true, Bool.and_eq_true, decide_eq_true_eq] at hab hbc ⊢
      rcases hab with hab | ⟨hab, hname⟩
      · rcases hbc with hbc | ⟨hbc, -⟩ <;> exact .inl (by omega)
      · rcases hbc with hbc | ⟨hbc, hname'⟩
        · exact .inl (by omega)
        · exact .inr ⟨hab.trans hbc, String.le_trans hname hname'⟩
    · simp only [Bool.or_eq_true, Bool.and_eq_true, decide_eq_true_eq]
      rcases Int.lt_trichotomy a.2.rank b.2.rank with hlt | heq | hlt
      · exact .inl (.inl hlt)
      · rcases String.le_total a.1 b.1 with hname | hname
        · exact .inl (.inr ⟨heq, hname⟩)
        · exact .inr (.inr ⟨heq.symm, hname⟩)
      · exact .inr (.inl hlt)
    · rw [← rank_of_mem_scores (List.mem_mergeSort.1 ha), ← rank_of_mem_scores (List.mem_mergeSort.1 hb)]
      simpa only [Bool.or_eq_true, Bool.and_eq_true, decide_eq_true_eq] using hab
  have hdistinct : (listedTexts ids).Nodup :=
    (perm_listedTexts hnodup).nodup_iff.2 (hnodup.map fun _ _ => Decimal.ofInt_injective)
  refine (List.pairwise_and_iff.2 ⟨hdistinct, hsorted⟩).imp ?_
  rintro a b ⟨hne, hlt | ⟨heq, hle⟩⟩
  · exact .inl hlt
  · exact .inr ⟨heq, String.not_le.1 fun hge => hne (String.le_antisymm hle hge)⟩

/-- Both ways of listing come to the same. -/
theorem foundTexts_eq_listedTexts (hnodup : ids.Nodup) : foundTexts ids = listedTexts ids :=
  ((perm_foundTexts hnodup).trans (perm_listedTexts hnodup).symm).eq_of_pairwise
    (fun _ _ _ _ hab hba => absurd hba hab.asymm) (sooner_foundTexts ids) (sooner_listedTexts hnodup)

end Texts

section Lists

variable {ids : List Int} (hexact : ∀ id ∈ ids, Exact id) (hascending : ids.Pairwise (· < ·))

include hexact hascending

/-- Texts of the same ids in the order of their ranks are those of the ids in ascending order. -/
theorem eq_of_perm_of_ranks {texts : List String} (hperm : texts.Perm (ids.map Decimal.ofInt))
    (hsorted : texts.Pairwise Sooner) : texts = ids.map Decimal.ofInt := by
  refine hperm.eq_of_pairwise ?_ (hsorted.imp Sooner.rankOf_le) ?_
  · intro a b ha hb hab hba
    obtain ⟨i, hi, rfl⟩ := List.mem_map.1 (hperm.mem_iff.1 ha)
    obtain ⟨j, hj, rfl⟩ := List.mem_map.1 hb
    rw [eq_of_rankOf_le (hexact i hi) (hexact j hj) hab hba]
  · refine List.pairwise_map.2 (hascending.imp_of_mem fun {a b} ha hb hab => ?_)
    exact Int.le_of_lt (rankOf_lt (hexact a ha) (hexact b hb) hab)

theorem foundTexts_of_exact : foundTexts ids = ids.map Decimal.ofInt :=
  eq_of_perm_of_ranks hexact hascending (perm_foundTexts (hascending.imp fun h => Int.ne_of_lt h))
    (sooner_foundTexts ids)

theorem listedTexts_of_exact : listedTexts ids = ids.map Decimal.ofInt := by
  have hnodup : ids.Nodup := hascending.imp fun h => Int.ne_of_lt h
  exact eq_of_perm_of_ranks hexact hascending (perm_listedTexts hnodup) (sooner_listedTexts hnodup)

end Lists

end DocStore
