import Concordance.Proofs.Index.Imports

/-!
# Merging more than two indices

Which entries a merge takes from an external index depends on what is in the first one when they
meet. Under either policy this comes to the same for both groupings of three indices, because an id
is taken in a merged index exactly where it is taken in one of the two (`isTaken_merged`). A strict
merge is refused where two indices share an id; in both groupings that is any two of the three
(`fits_merged_left`, `fits_merged_right`).

So the groupings agree on the entries. That the indices themselves are equal follows from
`Reachable.eq_of_entries`: every index that there can be is what its entries give when they are
inserted one after another.
-/

namespace Concordance.Index

/-! ## What an index is determined by -/

/-- The index as it was before it was frozen. -/
def thawed (ix : Index) : Index := { ix with frozen := false }

/-- Inserting the entries of an index one after another makes that index, before it was frozen. -/
def Rebuilt (ix : Index) : Prop := empty.insertAll ix.entries = .ok ix.thawed

theorem insertAll_append (ix : Index) (es es' : List Entry) :
    ix.insertAll (es ++ es') = ix.insertAll es >>= fun ix' => ix'.insertAll es' :=
  List.foldlM_append

theorem insert_thawed {ix ix' : Index} {e : Entry} (h : ix.insert e = .ok ix') :
    ix.thawed.insert e = .ok ix'.thawed := by
  obtain ⟨hlinked, m, hm, rfl⟩ := insert_ok_iff.1 h
  exact insert_ok_iff.2 ⟨hlinked, m, hm, rfl⟩

theorem Rebuilt.insert {ix ix' : Index} {e : Entry} (hb : ix.Rebuilt)
    (h : ix.insert e = .ok ix') : ix'.Rebuilt := by
  rw [Rebuilt, entries_of_insert h, insertAll_append]
  exact bind_ok_iff.2 ⟨ix.thawed, hb, bind_ok_iff.2 ⟨ix'.thawed, insert_thawed h, rfl⟩⟩

theorem hereditary_rebuilt : Hereditary Rebuilt where
  empty := rfl
  insert hb _ h := hb.insert h
  freeze hb h := by
    obtain ⟨-, rfl⟩ := freeze_ok_iff.1 h
    exact hb

/-- An index is determined by its entries and by whether it is frozen. -/
theorem Reachable.eq_of_entries {ix ix' : Index} (h : ix.Reachable) (h' : ix'.Reachable)
    (he : ix.entries = ix'.entries) (hf : ix.frozen = ix'.frozen) : ix = ix' := by
  have hb : ix.Rebuilt := hereditary_rebuilt.of_reachable h
  have hb' : ix'.Rebuilt := hereditary_rebuilt.of_reachable h'
  have hthawed : ix.thawed = ix'.thawed := by
    rw [Rebuilt, he] at hb
    exact Except.ok.inj (hb.symm.trans hb')
  cases ix
  cases ix'
  cases hf
  simpa [thawed] using hthawed

theorem Reachable.sealed {ix : Index} (h : ix.Reachable) (hf : ix.frozen = true) : ix.Sealed :=
  ⟨h.coherent, hf⟩

/-! ## Ids that two indices share -/

/-- No id is in both indices. -/
def Separate (A B : Index) : Prop := ∀ e ∈ A.entries, ∀ e' ∈ B.entries, e.Apart e'

/-- Whether a policy lets two indices be merged. -/
def Fits (policy : MergePolicy) (A B : Index) : Prop := policy = .strict → Separate A B

section Separate

variable {A B C M : Index} {policy : MergePolicy}

theorem fits_localWins (A B : Index) : Fits .localWins A B := by simp [Fits]

theorem separate_iff_isTaken (hA : A.Coherent) (hB : B.Coherent) :
    Separate A B ↔ ∀ e ∈ B.entries, A.isTaken e = false := by
  have h : ∀ e ∈ B.entries, A.isTaken e = false ↔ ∀ e' ∈ A.entries, e'.Apart e := fun e he =>
    isTaken_eq_false_iff hA (hB.insertable e he)
  rw [forall₂_congr h]
  exact forall₂_comm

theorem admitted_of_separate (hA : A.Coherent) (hB : B.Coherent) (h : Separate A B) :
    A.admitted B = B.entries :=
  List.filter_eq_self.2 fun e he => by
    simp [(separate_iff_isTaken hA hB).1 h e he]

/-- Two frozen indices are merged where the policy lets them be; otherwise an id is named. -/
theorem Sealed.merge_of_fits (hA : A.Sealed) (hB : B.Sealed) (policy : MergePolicy)
    (h : Fits policy A B) :
    ∃ M : Index, A.merge B policy = .ok M ∧ M.Sealed ∧ M.entries = A.entries ++ A.admitted B :=
  hA.merge_ok hB fun hp => (separate_iff_isTaken hA.coherent hB.coherent).1 (h hp)

theorem Sealed.merge_of_not_fits (hA : A.Sealed) (hB : B.Sealed) (policy : MergePolicy)
    (h : ¬Fits policy A B) :
    ∃ id, A.merge B policy = .error (.duplicateId id) := by
  obtain ⟨rfl, hnot⟩ : policy = .strict ∧ ¬Separate A B := Classical.not_imp.1 h
  rw [separate_iff_isTaken hA.coherent hB.coherent] at hnot
  push Not at hnot
  obtain ⟨e, he, htaken⟩ := hnot
  exact hA.merge_error hB he (by simpa using htaken)

/-- An id is taken in a merged index where it is taken in one of the two. -/
theorem isTaken_merged (hA : A.Coherent) (hB : B.Coherent) (hM : M.Coherent)
    (hentries : M.entries = A.entries ++ A.admitted B) {e : Entry} (he : e.Insertable) :
    M.isTaken e = (A.isTaken e || B.isTaken e) := by
  rw [← Bool.not_inj_iff, Bool.not_or, Bool.eq_iff_iff, Bool.and_eq_true]
  simp only [Bool.not_eq_true']
  rw [isTaken_eq_false_iff hM he, isTaken_eq_false_iff hA he, isTaken_eq_false_iff hB he, hentries]
  simp only [List.mem_append, or_imp, forall_and]
  refine and_congr_right fun hfree => ⟨fun h b hb => ?_, fun h b hb => h b (List.mem_filter.1 hb).1⟩
  by_cases htaken : A.isTaken b = false
  · exact h b (List.mem_filter.2 ⟨hb, by simp [htaken]⟩)
  · -- an entry that is left out has the key of an entry of the first index
    rw [isTaken_eq_false_iff hA (hB.insertable b hb)] at htaken
    unfold Entry.Apart at htaken
    push Not at htaken
    obtain ⟨a, ha, hset, -, hkey⟩ := htaken
    exact fun _ hsete heq => hfree a ha hset hsete (hkey.trans heq)

theorem admitted_merged (hA : A.Coherent) (hB : B.Coherent) (hC : C.Coherent) (hM : M.Coherent)
    (hentries : M.entries = A.entries ++ A.admitted B) :
    M.admitted C = C.entries.filter fun e => !A.isTaken e && !B.isTaken e :=
  List.filter_congr fun e he => by
    rw [isTaken_merged hA hB hM hentries (hC.insertable e he), Bool.not_or]

theorem admitted_of_merged (hentries : M.entries = B.entries ++ B.admitted C) :
    A.admitted M = A.admitted B ++ C.entries.filter fun e => !A.isTaken e && !B.isTaken e := by
  rw [admitted, hentries, List.filter_append, admitted, admitted, List.filter_filter]

theorem separate_append_left (h : M.entries = A.entries ++ B.entries) :
    Separate M C ↔ Separate A C ∧ Separate B C := by
  simp only [Separate, h, List.mem_append, or_imp, forall_and]

theorem separate_append_right (h : M.entries = B.entries ++ C.entries) :
    Separate A M ↔ Separate A B ∧ Separate A C := by
  simp only [Separate, h, List.mem_append, or_imp, forall_and]

theorem fits_merged_left (hA : A.Coherent) (hB : B.Coherent) (hfits : Fits policy A B)
    (h : M.entries = A.entries ++ A.admitted B) :
    Fits policy M C ↔ Fits policy A C ∧ Fits policy B C := by
  unfold Fits
  rw [← forall_and]
  refine forall_congr' fun hp => separate_append_left ?_
  rw [h, admitted_of_separate hA hB (hfits hp)]

theorem fits_merged_right (hB : B.Coherent) (hC : C.Coherent) (hfits : Fits policy B C)
    (h : M.entries = B.entries ++ B.admitted C) :
    Fits policy A M ↔ Fits policy A B ∧ Fits policy A C := by
  unfold Fits
  rw [← forall_and]
  refine forall_congr' fun hp => separate_append_right ?_
  rw [h, admitted_of_separate hB hC (hfits hp)]

end Separate

/-! ## Three indices -/

section Three

variable {A B C : Index} {policy : MergePolicy}

/-- Where every two of three indices can be merged, both groupings give the same index. -/
theorem merge_merge_of_fits (hA : A.Reachable) (hB : B.Reachable) (hC : C.Reachable)
    (sA : A.Sealed) (sB : B.Sealed) (sC : C.Sealed) (hAB : Fits policy A B)
    (hAC : Fits policy A C) (hBC : Fits policy B C) :
    ∃ M, (A.merge B policy >>= (·.merge C policy)) = .ok M ∧
      (B.merge C policy >>= (A.merge · policy)) = .ok M := by
  obtain ⟨AB, hmAB, sAB, eAB⟩ := sA.merge_of_fits sB policy hAB
  obtain ⟨BC, hmBC, sBC, eBC⟩ := sB.merge_of_fits sC policy hBC
  obtain ⟨M, hM, sM, eM⟩ := sAB.merge_of_fits sC policy
    ((fits_merged_left sA.coherent sB.coherent hAB eAB).2 ⟨hAC, hBC⟩)
  obtain ⟨M', hM', sM', eM'⟩ := sA.merge_of_fits sBC policy
    ((fits_merged_right sB.coherent sC.coherent hBC eBC).2 ⟨hAB, hAC⟩)
  have hsame : M.entries = M'.entries := by
    rw [eM, eAB, eM', admitted_of_merged eBC, List.append_assoc,
      admitted_merged sA.coherent sB.coherent sC.coherent sAB.coherent eAB]
  have rM : M.Reachable := .merge (.merge hA hB hmAB) hC hM
  have rM' : M'.Reachable := .merge hA (.merge hB hC hmBC) hM'
  obtain rfl := rM.eq_of_entries rM' hsame (sM.frozen.trans sM'.frozen.symm)
  exact ⟨M, bind_ok_iff.2 ⟨AB, hmAB, hM⟩, bind_ok_iff.2 ⟨BC, hmBC, hM'⟩⟩

theorem merge_merge_left_error (sA : A.Sealed) (sB : B.Sealed) (sC : C.Sealed)
    (h : ¬(Fits policy A B ∧ Fits policy A C ∧ Fits policy B C)) :
    ∃ id, (A.merge B policy >>= (·.merge C policy)) = .error (.duplicateId id) := by
  by_cases hAB : Fits policy A B
  · obtain ⟨AB, hmAB, sAB, eAB⟩ := sA.merge_of_fits sB policy hAB
    obtain ⟨id, hid⟩ := sAB.merge_of_not_fits sC policy fun hfits =>
      h ⟨hAB, (fits_merged_left sA.coherent sB.coherent hAB eAB).1 hfits⟩
    exact ⟨id, bind_error_iff.2 (.inr ⟨AB, hmAB, hid⟩)⟩
  · obtain ⟨id, hid⟩ := sA.merge_of_not_fits sB policy hAB
    exact ⟨id, bind_error_iff.2 (.inl hid)⟩

theorem merge_merge_right_error (sA : A.Sealed) (sB : B.Sealed) (sC : C.Sealed)
    (h : ¬(Fits policy A B ∧ Fits policy A C ∧ Fits policy B C)) :
    ∃ id, (B.merge C policy >>= (A.merge · policy)) = .error (.duplicateId id) := by
  by_cases hBC : Fits policy B C
  · obtain ⟨BC, hmBC, sBC, eBC⟩ := sB.merge_of_fits sC policy hBC
    obtain ⟨id, hid⟩ := sA.merge_of_not_fits sBC policy fun hfits =>
      h (and_assoc.1 ⟨(fits_merged_right sB.coherent sC.coherent hBC eBC).1 hfits, hBC⟩)
    exact ⟨id, bind_error_iff.2 (.inr ⟨BC, hmBC, hid⟩)⟩
  · obtain ⟨id, hid⟩ := sB.merge_of_not_fits sC policy hBC
    exact ⟨id, bind_error_iff.2 (.inl hid)⟩

end Three

/-! ## No index, and any number of them -/

/-- The frozen index without entries. -/
def vacant : Index := { empty with frozen := true }

theorem vacant_reachable : vacant.Reachable := Reachable.empty.after .freeze

theorem vacant_sealed : vacant.Sealed := vacant_reachable.sealed rfl

section Vacant

variable {ix : Index} (policy : MergePolicy)

theorem vacant_merge (h : ix.Reachable) (s : ix.Sealed) : vacant.merge ix policy = .ok ix := by
  have hsep : Separate vacant ix := fun _ he => (List.not_mem_nil he).elim
  obtain ⟨M, hM, sM, eM⟩ := vacant_sealed.merge_of_fits s policy fun _ => hsep
  rw [admitted_of_separate vacant_sealed.coherent s.coherent hsep] at eM
  have rM : M.Reachable := .merge vacant_reachable h hM
  rw [hM, rM.eq_of_entries h eM (sM.frozen.trans s.frozen.symm)]

theorem merge_vacant (h : ix.Reachable) (s : ix.Sealed) : ix.merge vacant policy = .ok ix := by
  obtain ⟨M, hM, sM, eM⟩ := s.merge_of_fits vacant_sealed policy
    fun _ _ _ _ he => (List.not_mem_nil he).elim
  have rM : M.Reachable := .merge h vacant_reachable hM
  rw [hM, rM.eq_of_entries h (eM.trans (List.append_nil _)) (sM.frozen.trans s.frozen.symm)]

end Vacant

/-- Indices merged strictly, one after another, into an index. -/
def mergeAll (ix : Index) (externals : List Index) : Except Fault Index :=
  externals.foldlM (fun ix external => ix.merge external .strict) ix

section Many

variable {ix external M : Index} {ixs : List Index}

theorem pairwise_separate_merged (hsep : Separate ix external)
    (h : M.entries = ix.entries ++ external.entries) :
    (M :: ixs).Pairwise Separate ↔ (ix :: external :: ixs).Pairwise Separate := by
  simp only [List.pairwise_cons, separate_append_left h, List.forall_mem_cons, hsep, true_and,
    forall_and, and_assoc]

theorem mergeAll_ok (h : ix.Reachable) (s : ix.Sealed)
    (hixs : ∀ external ∈ ixs, external.Reachable ∧ external.Sealed)
    (hsep : (ix :: ixs).Pairwise Separate) :
    ∃ M : Index, ix.mergeAll ixs = .ok M ∧ M.Reachable ∧ M.Sealed ∧
      M.entries = ix.entries ++ ixs.flatMap entries := by
  induction ixs generalizing ix with
  | nil => exact ⟨ix, rfl, h, s, (List.append_nil _).symm⟩
  | cons external ixs ih =>
    obtain ⟨⟨hr, hs⟩, hixs⟩ := List.forall_mem_cons.1 hixs
    have hfirst : Separate ix external := (List.pairwise_cons.1 hsep).1 _ List.mem_cons_self
    obtain ⟨M, hM, sM, eM⟩ := s.merge_of_fits hs .strict fun _ => hfirst
    rw [admitted_of_separate s.coherent hs.coherent hfirst] at eM
    obtain ⟨M', hM', rM', sM', eM'⟩ := ih (.merge h hr hM) sM hixs
      ((pairwise_separate_merged hfirst eM).2 hsep)
    refine ⟨M', ?_, rM', sM', ?_⟩
    · rw [mergeAll, List.foldlM_cons]
      exact bind_ok_iff.2 ⟨M, hM, hM'⟩
    · rw [eM', eM, List.append_assoc, List.flatMap_cons]

theorem mergeAll_error (s : ix.Sealed) (hixs : ∀ external ∈ ixs, external.Sealed)
    (hnot : ¬(ix :: ixs).Pairwise Separate) :
    ∃ id, ix.mergeAll ixs = .error (.duplicateId id) := by
  induction ixs generalizing ix with
  | nil => exact absurd (List.pairwise_singleton _ _) hnot
  | cons external ixs ih =>
    obtain ⟨hs, hixs⟩ := List.forall_mem_cons.1 hixs
    rw [mergeAll, List.foldlM_cons]
    by_cases hfirst : Separate ix external
    · obtain ⟨M, hM, sM, eM⟩ := s.merge_of_fits hs .strict fun _ => hfirst
      rw [admitted_of_separate s.coherent hs.coherent hfirst] at eM
      obtain ⟨id, hid⟩ := ih sM hixs fun h => hnot ((pairwise_separate_merged hfirst eM).1 h)
      exact ⟨id, bind_error_iff.2 (.inr ⟨M, hM, hid⟩)⟩
    · obtain ⟨id, hid⟩ := s.merge_of_not_fits hs .strict fun h => hfirst (h rfl)
      exact ⟨id, bind_error_iff.2 (.inl hid)⟩

/-- No two entries of indices have one id exactly where no two of the indices share an id. -/
theorem pairwise_apart_iff (hixs : ∀ external ∈ ixs, external.Sealed) :
    (ixs.flatMap entries).Pairwise Entry.Apart ↔ ixs.Pairwise Separate := by
  rw [List.pairwise_flatMap]
  exact and_iff_right fun external h => (hixs external h).coherent.apart

/-- Indices are combined as they are merged one after another into no entries. -/
theorem combine_eq_mergeAll (hixs : ∀ external ∈ ixs, external.Reachable ∧ external.Sealed)
    (hsep : ixs.Pairwise Separate) :
    ∃ M, combine ixs = .ok M ∧ vacant.mergeAll ixs = .ok M := by
  obtain ⟨M, hM, sM, eM⟩ := combine_ok (fun ix h => (hixs ix h).2)
    ((pairwise_apart_iff fun ix h => (hixs ix h).2).2 hsep)
  have hsep' : (vacant :: ixs).Pairwise Separate :=
    List.pairwise_cons.2 ⟨fun _ _ _ he => (List.not_mem_nil he).elim, hsep⟩
  obtain ⟨M', hM', rM', sM', eM'⟩ := mergeAll_ok vacant_reachable vacant_sealed hixs hsep'
  have rM : M.Reachable := .combine (fun ix h => (hixs ix h).1) hM
  obtain rfl := rM.eq_of_entries rM' (eM.trans eM'.symm) (sM.frozen.trans sM'.frozen.symm)
  exact ⟨M, hM, hM'⟩

end Many

/-- **How indices are grouped makes no difference.** Three frozen indices merge into the same index
in both groupings, or in both a duplicate id is named; the latter exactly where the policy is strict
and two of the three share an id. The frozen index without entries changes nothing on either side.
Any number of frozen indices are combined into what they become when they are merged strictly, one
after another, into the index without entries, and that succeeds exactly where no two of them share
an id. -/
theorem merge_grouped {A B C : Index} {ixs : List Index} (hA : A.Reachable) (hB : B.Reachable)
    (hC : C.Reachable) (fA : A.frozen = true) (fB : B.frozen = true) (fC : C.frozen = true)
    (hixs : ∀ ix ∈ ixs, ix.Reachable ∧ ix.frozen = true) (policy : MergePolicy) :
    (Fits policy A B ∧ Fits policy A C ∧ Fits policy B C →
      ∃ M, (A.merge B policy >>= (·.merge C policy)) = .ok M ∧
        (B.merge C policy >>= (A.merge · policy)) = .ok M) ∧
    (¬(Fits policy A B ∧ Fits policy A C ∧ Fits policy B C) →
      (∃ id, (A.merge B policy >>= (·.merge C policy)) = .error (.duplicateId id)) ∧
      ∃ id, (B.merge C policy >>= (A.merge · policy)) = .error (.duplicateId id)) ∧
    vacant.merge A policy = .ok A ∧ A.merge vacant policy = .ok A ∧
    (∀ M, combine ixs = .ok M ↔ vacant.mergeAll ixs = .ok M) ∧
    ((∃ M, combine ixs = .ok M) ↔ ixs.Pairwise Separate) := by
  have sA := hA.sealed fA
  have sB := hB.sealed fB
  have sC := hC.sealed fC
  have hsealed : ∀ ix ∈ ixs, ix.Reachable ∧ ix.Sealed := fun ix h =>
    ⟨(hixs ix h).1, (hixs ix h).1.sealed (hixs ix h).2⟩
  refine ⟨fun ⟨hAB, hAC, hBC⟩ => merge_merge_of_fits hA hB hC sA sB sC hAB hAC hBC,
    fun hnot => ⟨merge_merge_left_error sA sB sC hnot, merge_merge_right_error sA sB sC hnot⟩,
    vacant_merge policy hA sA, merge_vacant policy hA sA, ?_⟩
  by_cases hsep : ixs.Pairwise Separate
  · obtain ⟨M, hM, hM'⟩ := combine_eq_mergeAll hsealed hsep
    exact ⟨fun M' => by rw [hM, hM'], iff_of_true ⟨M, hM⟩ hsep⟩
  · obtain ⟨id, hid⟩ := combine_error (fun ix h => (hsealed ix h).2) fun h =>
      hsep ((pairwise_apart_iff fun ix h => (hsealed ix h).2).1 h)
    obtain ⟨id', hid'⟩ := mergeAll_error vacant_sealed (fun ix h => (hsealed ix h).2) fun h =>
      hsep (List.pairwise_cons.1 h).2
    exact ⟨fun M => by simp [hid, hid'], iff_of_false (by simp [hid]) hsep⟩

/-- Three copies of `pair` are merged in both groupings where ids are left out, in none where they
may not be shared; and two copies cannot be combined. -/
theorem merge_grouped_pair : pair.Reachable ∧ pair.frozen = true ∧
    (∃ M, (pair.merge pair .localWins >>= (·.merge pair .localWins)) = .ok M ∧
      (pair.merge pair .localWins >>= (pair.merge · .localWins)) = .ok M) ∧
    (∃ id, (pair.merge pair .strict >>= (·.merge pair .strict)) = .error (.duplicateId id)) ∧
    ¬∃ M, combine [pair, pair] = .ok M := by
  have h : pair.Reachable := pair_reachable
  have hf : pair.frozen = true := pair_state.2
  have hshared : ¬Separate pair pair := fun hsep => by
    have hmem : pairEntries[0] ∈ pair.entries := by simp [pair_state.1, pairEntries]
    exact hsep _ hmem _ hmem rfl rfl rfl
  have hixs : ∀ ix ∈ [pair, pair], ix.Reachable ∧ ix.frozen = true := by simp [h, hf]
  obtain ⟨hok, -⟩ := merge_grouped h h h hf hf hf hixs .localWins
  obtain ⟨-, herror, -, -, -, hcombine⟩ := merge_grouped h h h hf hf hf hixs .strict
  refine ⟨h, hf, hok ⟨fits_localWins _ _, fits_localWins _ _, fits_localWins _ _⟩,
    (herror fun hfits => hshared (hfits.1 rfl)).1, ?_⟩
  simpa [hshared] using hcombine

end Concordance.Index
