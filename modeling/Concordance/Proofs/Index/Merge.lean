import Concordance.Proofs.Index.Views

/-!
# What merging returns

A merge inserts the entries of an index and then those of an external one into an empty index, and
freezes it. Because no two entries of either index answer to one key, every insertion succeeds
until an external entry with a taken id is met; which entries are taken can therefore be read off
the first index alone (`isTaken_of_insert`), and the loop over the external entries is settled by
`foldlM_mergeEntry_ok` and `foldlM_mergeEntry_error`.

The main statement `merge_outcome` says for which indices a merge is refused and why, and what it
returns for all others.
-/

namespace Concordance.Index

/-! ## Insertions that succeed -/

theorem Open.exists_insert {ix : Index} (ho : ix.Open) {e : Entry} (he : e.Insertable)
    (hap : ∀ e' ∈ ix.entries, e'.Apart e) :
    ∃ ix', ix.insert e = .ok ix' ∧ ix'.Open ∧ ix'.entries = ix.entries ++ [e] := by
  have hkey : ∃ m, ix.withKey e = .ok m := by
    cases hs : e.id.isSet with
    | false => exact ⟨_, withKey_ok_iff.2 (.inl ⟨hs, rfl⟩)⟩
    | true =>
      obtain ⟨k, hk⟩ := he.keyed hs
      refine ⟨_, withKey_ok_iff.2 (.inr ⟨k, hk, fun hmem => ?_, rfl⟩)⟩
      obtain ⟨e', he'⟩ := Option.isSome_iff_exists.1 (Std.HashMap.mem_iff_isSome_getElem?.1 hmem)
      obtain ⟨hin, hk'⟩ := ho.1.byKey_eq_some_iff.1 he'
      obtain ⟨hs', hkey'⟩ := Entry.hasKey_iff.1 hk'
      exact hap e' hin hs' hs (hkey'.trans (Entry.hasKey_iff.1 hk).2.symm)
  obtain ⟨m, hm⟩ := hkey
  have hi := insert_ok_iff.2 ⟨he.linked, m, hm, rfl⟩
  exact ⟨_, hi, ho.insert hi, entries_of_insert hi⟩

theorem Open.exists_insertAll {ix : Index} (ho : ix.Open) {es : List Entry}
    (hes : ∀ e ∈ es, e.Insertable) (hap : (ix.entries ++ es).Pairwise Entry.Apart) :
    ∃ ix', ix.insertAll es = .ok ix' ∧ ix'.Open ∧ ix'.entries = ix.entries ++ es := by
  induction es generalizing ix with
  | nil => exact ⟨ix, rfl, ho, by simp⟩
  | cons e es ih =>
    obtain ⟨ix₁, h₁, ho₁, he₁⟩ := ho.exists_insert (hes e List.mem_cons_self)
      fun e' he' => (List.pairwise_append.1 hap).2.2 e' he' e List.mem_cons_self
    obtain ⟨ix₂, h₂, ho₂, he₂⟩ := ih ho₁ (fun e' he' => hes e' (List.mem_cons_of_mem _ he'))
      (by rw [he₁, List.append_assoc]; exact hap)
    refine ⟨ix₂, ?_, ho₂, by rw [he₂, he₁, List.append_assoc]; rfl⟩
    rw [Index.insertAll, List.foldlM_cons]
    exact bind_ok_iff.2 ⟨ix₁, h₁, h₂⟩

/-! ## The loop over the external entries -/

section Loop

variable {ix ix' : Index} {e : Entry}

theorem isTaken_eq_false_iff (hc : ix.Coherent) (he : e.Insertable) :
    ix.isTaken e = false ↔ ∀ e' ∈ ix.entries, e'.Apart e := by
  cases hs : e.id.isSet with
  | false => simp [isTaken, Entry.Apart, hs]
  | true =>
    obtain ⟨k, hk⟩ := he.keyed hs
    have hkey := (Entry.hasKey_iff.1 hk).2
    have hfind : ix.isTaken e = ix.byKey[k]?.isSome := by simp [isTaken, find?, hs, hkey]
    rw [hfind, Option.isSome_eq_false_iff, Option.isNone_iff_eq_none,
      Option.eq_none_iff_forall_ne_some]
    constructor
    · intro h e' he' hs' _ heq
      exact h e' (hc.byKey_eq_some_iff.2 ⟨he', Entry.hasKey_iff.2 ⟨hs', heq.trans hkey⟩⟩)
    · intro h e' hfound
      obtain ⟨he', hk'⟩ := hc.byKey_eq_some_iff.1 hfound
      obtain ⟨hs', hkey'⟩ := Entry.hasKey_iff.1 hk'
      exact h e' he' hs' hs (hkey'.trans hkey.symm)

/-- An insertion takes no id of an entry that is apart from the inserted one. -/
theorem isTaken_of_insert (ho : ix.Open) (h : ix.insert e = .ok ix') {e' : Entry}
    (he' : e'.Insertable) (hap : e.Apart e') : ix'.isTaken e' = ix.isTaken e' := by
  rw [Bool.eq_iff_iff, ← not_iff_not, Bool.not_eq_true, Bool.not_eq_true,
    isTaken_eq_false_iff (ho.insert h).1 he', isTaken_eq_false_iff ho.1 he', entries_of_insert h]
  simp [or_imp, forall_and, hap]

theorem mergeEntry_of_not_isTaken {policy : MergePolicy} (h : ix.isTaken e = false) :
    mergeEntry policy ix e = ix.insert e := by simp [mergeEntry, h]

variable {es : List Entry} (hes : ∀ e ∈ es, e.Insertable) (hap : es.Pairwise Entry.Apart)
include hes hap

/-- Merging goes through when no entry is taken or taken ones are left out. -/
theorem foldlM_mergeEntry_ok (policy : MergePolicy) (ho : ix.Open)
    (hfree : policy = .strict → ∀ e ∈ es, ix.isTaken e = false) :
    ∃ ix', es.foldlM (mergeEntry policy) ix = .ok ix' ∧ ix'.Open ∧
      ix'.entries = ix.entries ++ es.filter (!ix.isTaken ·) := by
  induction es generalizing ix with
  | nil => exact ⟨ix, rfl, ho, by simp⟩
  | cons e es ih =>
    have hes' : ∀ e' ∈ es, e'.Insertable := fun e' he' => hes e' (List.mem_cons_of_mem _ he')
    obtain ⟨hap₁, hap₂⟩ := List.pairwise_cons.1 hap
    rw [List.foldlM_cons]
    cases ht : ix.isTaken e with
    | true =>
      cases policy with
      | strict => simp [hfree rfl e List.mem_cons_self] at ht
      | localWins =>
        obtain ⟨ix', h, ho', he'⟩ := ih hes' hap₂ ho (by simp)
        refine ⟨ix', bind_ok_iff.2 ⟨ix, by simp [mergeEntry, ht], h⟩, ho', ?_⟩
        rw [he', List.filter_cons_of_neg (by simp [ht])]
    | false =>
      obtain ⟨ix₁, h₁, ho₁, he₁⟩ := ho.exists_insert (hes e List.mem_cons_self)
        ((isTaken_eq_false_iff ho.1 (hes e List.mem_cons_self)).1 ht)
      have hsame : ∀ e' ∈ es, ix₁.isTaken e' = ix.isTaken e' := fun e' he' =>
        isTaken_of_insert ho h₁ (hes' e' he') (hap₁ e' he')
      obtain ⟨ix', h, ho', he'⟩ := ih hes' hap₂ ho₁ fun hp e' he' =>
        (hsame e' he').trans (hfree hp e' (List.mem_cons_of_mem _ he'))
      refine ⟨ix', bind_ok_iff.2 ⟨ix₁, (mergeEntry_of_not_isTaken ht).trans h₁, h⟩, ho', ?_⟩
      rw [he', he₁, List.filter_cons_of_pos (by simp [ht]), List.append_assoc,
        List.filter_congr fun e' he' => by rw [hsame e' he']]
      rfl

/-- A strict merge stops at the first entry that is taken. -/
theorem foldlM_mergeEntry_error (ho : ix.Open) (hfind : es.find? ix.isTaken = some e) :
    es.foldlM (mergeEntry .strict) ix = .error (.duplicateId e.id) := by
  induction es generalizing ix with
  | nil => simp at hfind
  | cons e₁ es ih =>
    obtain ⟨hap₁, hap₂⟩ := List.pairwise_cons.1 hap
    rw [List.foldlM_cons]
    cases ht : ix.isTaken e₁ with
    | true =>
      rw [List.find?_cons_of_pos ht, Option.some.injEq] at hfind
      subst hfind
      exact bind_error_iff.2 (.inl (by simp [mergeEntry, ht]))
    | false =>
      rw [List.find?_cons_of_neg (by simp [ht])] at hfind
      obtain ⟨ix₁, h₁, ho₁, -⟩ := ho.exists_insert (hes e₁ List.mem_cons_self)
        ((isTaken_eq_false_iff ho.1 (hes e₁ List.mem_cons_self)).1 ht)
      have hes' : ∀ e' ∈ es, e'.Insertable := fun e' he' => hes e' (List.mem_cons_of_mem _ he')
      refine bind_error_iff.2 (.inr ⟨ix₁, (mergeEntry_of_not_isTaken ht).trans h₁, ?_⟩)
      refine ih hes' hap₂ ho₁ ?_
      rw [← hfind, ← List.head?_filter, ← List.head?_filter,
        List.filter_congr fun e' he' => isTaken_of_insert ho h₁ (hes' e' he') (hap₁ e' he')]

end Loop

/-! ## Indices whose ids are texts -/

/-- All ids and references are texts or not there. -/
def HasTextIds (ix : Index) : Prop :=
  ∀ e ∈ ix.entries, (e.id.isText = true ∨ e.id.isNull = true) ∧
    (e.refId.isText = true ∨ e.refId.isNull = true)

theorem pair_hasTextIds : pair.HasTextIds := by
  rw [HasTextIds, pair_state.1]
  simp [pairEntries, Entry.id, Entry.refId, Json.isText, Json.isNull]

/-- The entries of an external index that a merge keeps: under the lenient policy those whose id
is no id of the first index. -/
def kept (policy : MergePolicy) (ix external : Index) : List Entry :=
  match policy with
  | .strict => external.entries
  | .localWins => external.entries.filter fun e =>
      ∀ s ∈ e.id.ident?, s ∉ Entry.ids ix.entries

/-- The first id of an external index that the first index has too. -/
def sharedId? (ix external : Index) : Option String :=
  (Entry.ids external.entries).find? (· ∈ Entry.ids ix.entries)

theorem isTaken_eq_any {ix : Index} (hc : ix.Coherent) {e : Entry}
    (he : e.id.isText = true ∨ e.id.isNull = true) :
    ix.isTaken e = e.id.ident?.any (· ∈ Entry.ids ix.entries) := by
  rw [Bool.eq_iff_iff, Option.any_eq_true]
  cases hid : e.id with
  | null => simp [isTaken, hid, Json.isSet, Json.ident?]
  | string s =>
    rw [isTaken, hid, Bool.and_eq_true, Json.isSet_string, hc.find?_string_isSome_iff]
    simp only [Json.ident?_eq_some_iff, Json.string.injEq, decide_eq_true_eq]
    constructor
    · rintro ⟨hne, hmem⟩
      exact ⟨s, ⟨rfl, hne⟩, hmem⟩
    · rintro ⟨_, ⟨rfl, hne⟩, hmem⟩
      exact ⟨hne, hmem⟩
  | _ => simp [hid, Json.isText, Json.isNull] at he

theorem texts?_of_isText {vs : List Json} (h : ∀ v ∈ vs, v.isText = true) :
    ∃ ss, texts? vs = some ss := by
  induction vs with
  | nil => exact ⟨[], rfl⟩
  | cons v vs ih =>
    obtain ⟨ss, hss⟩ := ih fun v' hv' => h v' (List.mem_cons_of_mem _ hv')
    cases v with
    | string s => exact ⟨s :: ss, by rw [texts?] at hss ⊢; simp [hss]⟩
    | _ => simp [Json.isText] at h

/-- With texts for ids a dangling reference is what keeps an index from being frozen. -/
theorem freeze_error_of_dangling {ix : Index} (ht : ix.HasTextIds) (hd : ix.danglingRefs ≠ []) :
    ∃ refs, ix.freeze = .error (.dangling refs) := by
  have htext : ∀ v ∈ ix.danglingRefs, v.isText = true := by
    intro v hv
    obtain ⟨hmem, hdang⟩ := List.mem_filter.1 hv
    obtain ⟨e, he, rfl⟩ := List.mem_map.1 hmem
    rcases (ht e he).2 with h | h
    · exact h
    · cases hr : e.refId <;> simp_all [isDangling, Json.isNull, Json.isSet]
  obtain ⟨ss, hss⟩ := texts?_of_isText htext
  refine ⟨sortedTexts ss, ?_⟩
  unfold freeze
  split
  · next h => exact absurd h hd
  · rw [hss]

/-- References dangle exactly where one of them is no id of an entry. -/
theorem danglingRefs_eq_nil_iff {ix : Index} (hc : ix.Coherent) (ht : ix.HasTextIds) :
    ix.danglingRefs = [] ↔
      ∀ e ∈ ix.entries, ∀ r, e.refId.ident? = some r → r ∈ Entry.ids ix.entries := by
  rw [danglingRefs, List.filter_eq_nil_iff]
  simp only [List.mem_map, forall_exists_index, and_imp, forall_apply_eq_imp_iff₂]
  refine forall₂_congr fun e he => ?_
  cases hr : e.refId with
  | null => simp [isDangling, Json.isSet, Json.ident?]
  | string r =>
    rw [hc.isDangling_string_iff]
    simp only [Json.ident?_eq_some_iff, Json.string.injEq]
    grind
  | _ => simpa [hr, Json.isText, Json.isNull] using (ht e he).2

/-! ## The outcome of a merge -/

section Outcome

variable {ix external : Index} {policy : MergePolicy}

theorem exists_base (hc : ix.Coherent) :
    ∃ base, empty.insertAll ix.entries = .ok base ∧ base.Open ∧ base.entries = ix.entries :=
  open_empty.exists_insertAll hc.insertable (by simpa [empty] using hc.apart)

/-- The external entries that are not left out are those whose id is free. -/
theorem filter_not_isTaken (hc : ix.Coherent) (ht : external.HasTextIds)
    (hfree : policy = .strict → sharedId? ix external = none) :
    external.entries.filter (!ix.isTaken ·) = kept policy ix external := by
  have htaken : ∀ e ∈ external.entries, ix.isTaken e =
      e.id.ident?.any (· ∈ Entry.ids ix.entries) := fun e he => isTaken_eq_any hc (ht e he).1
  rw [List.filter_congr fun e he => by rw [htaken e he]]
  cases policy with
  | strict =>
    refine List.filter_eq_self.2 fun e he => ?_
    have hnone := List.find?_eq_none.1 (hfree rfl)
    cases hid : e.id.ident? with
    | none => simp
    | some s => simpa using hnone s (Entry.mem_ids_iff.2 ⟨e, he, hid⟩)
  | localWins =>
    refine List.filter_congr fun e _ => ?_
    cases hid : e.id.ident? <;> simp

theorem find?_isTaken_of_sharedId? (hc : ix.Coherent) (ht : external.HasTextIds) {s : String}
    (hs : sharedId? ix external = some s) :
    ∃ e, external.entries.find? ix.isTaken = some e ∧ e.id = .string s := by
  change (external.entries.filterMap (·.id.ident?)).find? (· ∈ Entry.ids ix.entries) = some s at hs
  rw [List.find?_filterMap, Option.bind_eq_some_iff] at hs
  obtain ⟨e, he, hid⟩ := hs
  refine ⟨e, ?_, (Json.ident?_eq_some_iff.1 hid).1⟩
  rw [← he, ← List.head?_filter, ← List.head?_filter,
    List.filter_congr fun e' he' => isTaken_eq_any hc (ht e' he').1]

theorem isTaken_congr {base : Index} (hb : base.Coherent) (hc : ix.Coherent)
    (heq : base.entries = ix.entries) {e : Entry} (he : e.Insertable) :
    base.isTaken e = ix.isTaken e := by
  rw [Bool.eq_iff_iff, ← not_iff_not, Bool.not_eq_true, Bool.not_eq_true,
    isTaken_eq_false_iff hb he, isTaken_eq_false_iff hc he, heq]

/-- A strict merge is refused for the first external entry whose id is taken. -/
theorem merge_of_isTaken (hc : ix.Coherent) (hx : external.Coherent) {e : Entry}
    (hfind : external.entries.find? ix.isTaken = some e) :
    ix.merge external .strict = .error (.duplicateId e.id) := by
  obtain ⟨base, hb, hopen, hentries⟩ := exists_base hc
  have hfind' : external.entries.find? base.isTaken = some e := by
    rw [← hfind, ← List.head?_filter, ← List.head?_filter, List.filter_congr fun e' he' =>
      isTaken_congr hopen.1 hc hentries (hx.insertable e' he')]
  unfold merge
  refine bind_error_iff.2 (.inr ⟨base, hb, bind_error_iff.2 (.inl ?_)⟩)
  rw [foldlM_mergeEntry_error hx.insertable hx.apart hopen hfind']

/-- Any other merge comes down to freezing the entries of the first index and those of the external
one whose id is free. -/
theorem exists_merge_eq_freeze_filter (hc : ix.Coherent) (hx : external.Coherent)
    (hfree : policy = .strict → ∀ e ∈ external.entries, ix.isTaken e = false) :
    ∃ merged : Index, merged.Open ∧
      merged.entries = ix.entries ++ external.entries.filter (!ix.isTaken ·) ∧
      ix.merge external policy = merged.freeze := by
  obtain ⟨base, hb, hopen, hentries⟩ := exists_base hc
  have hsame : ∀ e ∈ external.entries, base.isTaken e = ix.isTaken e := fun e he =>
    isTaken_congr hopen.1 hc hentries (hx.insertable e he)
  obtain ⟨merged, hm, hopen', hentries'⟩ :=
    foldlM_mergeEntry_ok hx.insertable hx.apart policy hopen fun hp e he =>
      (hsame e he).trans (hfree hp e he)
  refine ⟨merged, hopen', ?_, ?_⟩
  · rw [hentries', hentries, List.filter_congr fun e he => by rw [hsame e he]]
  · unfold merge
    rw [hb]
    show (external.entries.foldlM (mergeEntry policy) base >>= freeze) = merged.freeze
    rw [hm]
    rfl

/-- A strict merge of indices that share an id is refused with the first shared id. -/
theorem merge_of_sharedId? (hc : ix.Coherent) (hx : external.Coherent)
    (ht : external.HasTextIds) {s : String} (hs : sharedId? ix external = some s) :
    ix.merge external .strict = .error (.duplicateId (.string s)) := by
  obtain ⟨e, hfind, hid⟩ := find?_isTaken_of_sharedId? hc ht hs
  rw [merge_of_isTaken hc hx hfind, hid]

/-- Any other merge comes down to freezing the entries of the first index and the kept ones. -/
theorem exists_merge_eq_freeze (hc : ix.Coherent) (hx : external.Coherent)
    (ht : external.HasTextIds) (hfree : policy = .strict → sharedId? ix external = none) :
    ∃ merged : Index, merged.Open ∧
      merged.entries = ix.entries ++ kept policy ix external ∧
      ix.merge external policy = merged.freeze := by
  have hfilter := filter_not_isTaken hc ht hfree
  have hnone : policy = .strict → ∀ e ∈ external.entries, ix.isTaken e = false := by
    rintro rfl e he
    have hkept : e ∈ external.entries.filter (!ix.isTaken ·) := by rw [hfilter]; exact he
    simpa using (List.mem_filter.1 hkept).2
  obtain ⟨merged, hopen, hentries, heq⟩ := exists_merge_eq_freeze_filter hc hx hnone
  exact ⟨merged, hopen, hentries.trans (by rw [hfilter]), heq⟩

theorem kept_subset {e : Entry} (he : e ∈ kept policy ix external) : e ∈ external.entries := by
  cases policy with
  | strict => exact he
  | localWins => exact (List.mem_filter.1 he).1

/-- Leaving entries out loses no id: what is left out has an id of the first index. -/
theorem mem_ids_append_kept_iff {s : String} :
    s ∈ Entry.ids (ix.entries ++ kept policy ix external) ↔
      s ∈ Entry.ids ix.entries ∨ s ∈ Entry.ids external.entries := by
  rw [Entry.ids_append, List.mem_append]
  refine or_congr_right' fun hfree => ?_
  rw [Entry.mem_ids_iff, Entry.mem_ids_iff]
  refine exists_congr fun e => and_congr_left fun hid => ⟨kept_subset, fun he => ?_⟩
  cases policy with
  | strict => exact he
  | localWins => exact List.mem_filter.2 ⟨he, by simpa [hid] using hfree⟩

/-- The entry under an id of merged entries is that of the first index, or else that of the
external one. -/
theorem find?_append_kept (policy : MergePolicy) {s : String} (hc : ix.Coherent)
    (hx : external.Coherent) :
    (ix.entries ++ kept policy ix external).find? (Entry.hasKey (.text s)) =
      (ix.find? (.string s)).or (external.find? (.string s)) := by
  have hleft : ix.find? (.string s) = ix.entries.find? (Entry.hasKey (.text s)) :=
    hc.byKey_eq (.text s)
  have hright : external.find? (.string s) = external.entries.find? (Entry.hasKey (.text s)) :=
    hx.byKey_eq (.text s)
  rw [List.find?_append, hleft, hright]
  cases hfound : ix.entries.find? (Entry.hasKey (.text s)) with
  | some e => rfl
  | none =>
    rw [Option.none_or, Option.none_or]
    cases policy with
    | strict => rfl
    | localWins =>
      have hfree : s ∉ Entry.ids ix.entries := by
        rw [← hc.find?_string_isSome_iff, hleft, hfound]
        simp
      -- an entry with the id is kept, since the first index does not have it
      rw [kept, List.find?_filter, ← List.head?_filter, ← List.head?_filter]
      refine congrArg List.head? (List.filter_congr fun e _ => ?_)
      rw [Bool.eq_iff_iff, decide_eq_true_eq, Entry.hasKey_text_iff]
      simp only [decide_eq_true_eq]
      exact ⟨fun h => h.2, fun h => ⟨by simpa [h] using hfree, h⟩⟩

end Outcome

/-- Some reference of the entries that a merge keeps is no id of either index. -/
def LeavesUnresolved (policy : MergePolicy) (ix external : Index) : Prop :=
  ∃ e ∈ ix.entries ++ kept policy ix external, ∃ r, e.refId.ident? = some r ∧
    r ∉ Entry.ids ix.entries ∧ r ∉ Entry.ids external.entries

section Outcome

variable {L E merged : Index} {policy : MergePolicy}

theorem hasTextIds_append_kept (tL : L.HasTextIds) (tE : E.HasTextIds)
    (h : merged.entries = L.entries ++ kept policy L E) : merged.HasTextIds := by
  intro e he
  rw [h] at he
  rcases List.mem_append.1 he with he | he
  · exact tL e he
  · exact tE e (kept_subset he)

theorem danglingRefs_append_kept (hm : merged.Coherent) (tm : merged.HasTextIds)
    (h : merged.entries = L.entries ++ kept policy L E) :
    merged.danglingRefs = [] ↔ ¬LeavesUnresolved policy L E := by
  rw [danglingRefs_eq_nil_iff hm tm, h]
  simp only [mem_ids_append_kept_iff, LeavesUnresolved, not_exists, not_and, not_not,
    ← or_iff_not_imp_left]

theorem not_leavesUnresolved_of_frozen (hL : L.Coherent) (hE : E.Coherent)
    (fL : L.frozen = true) (fE : E.frozen = true) : ¬LeavesUnresolved policy L E := by
  rintro ⟨e, he, r, hr, hrL, hrE⟩
  rcases List.mem_append.1 he with he | he
  · exact hrL (hL.exists_of_refId fL he hr)
  · exact hrE (hE.exists_of_refId fE (kept_subset he) hr)

theorem merge_error_of_leavesUnresolved (cL : L.Coherent) (cE : E.Coherent) (tL : L.HasTextIds)
    (tE : E.HasTextIds) (hfree : policy = .strict → sharedId? L E = none)
    (h : LeavesUnresolved policy L E) : ∃ refs, L.merge E policy = .error (.dangling refs) := by
  obtain ⟨merged, hopen, hentries, heq⟩ := exists_merge_eq_freeze cL cE tE hfree
  have tm := hasTextIds_append_kept tL tE hentries
  rw [heq]
  exact freeze_error_of_dangling tm fun hnil =>
    (danglingRefs_append_kept hopen.1 tm hentries).1 hnil h

theorem merge_ok_of_not_leavesUnresolved (cL : L.Coherent) (cE : E.Coherent) (tL : L.HasTextIds)
    (tE : E.HasTextIds) (hfree : policy = .strict → sharedId? L E = none)
    (h : ¬LeavesUnresolved policy L E) :
    ∃ M, L.merge E policy = .ok M ∧ M.frozen = true ∧
      M.entries = L.entries ++ kept policy L E := by
  obtain ⟨merged, hopen, hentries, heq⟩ := exists_merge_eq_freeze cL cE tE hfree
  have tm := hasTextIds_append_kept tL tE hentries
  have hdang := (danglingRefs_append_kept hopen.1 tm hentries).2 h
  exact ⟨_, heq.trans (freeze_ok_iff.2 ⟨hdang, rfl⟩), rfl, hentries⟩

/-- In merged entries the first index wins, and its listings come first. -/
theorem views_of_append_kept (cL : L.Coherent) (cE : E.Coherent) (cM : merged.Coherent)
    (h : merged.entries = L.entries ++ kept policy L E) :
    (∀ x, merged.find? (.string x) = (L.find? (.string x)).or (E.find? (.string x))) ∧
    (∀ scope aoid o, L.operation? scope aoid = some o → merged.operation? scope aoid = some o) ∧
    ∀ scope aoid, L.concreteMethods scope aoid <+: merged.concreteMethods scope aoid := by
  refine ⟨fun x => ?_, fun scope aoid o ho => ?_, fun scope aoid => ?_⟩
  · rw [← find?_append_kept policy cL cE, ← h]
    exact cM.byKey_eq (.text x)
  · rw [cL.operation?_eq] at ho
    rw [cM.operation?_eq, h, Entry.operations_append, List.find?_append, ho]
    rfl
  · rw [cL.concreteMethods_eq, cM.concreteMethods_eq, h, Entry.operations_append,
      List.filter_append]
    exact List.prefix_append _ _

/-- **What a merge returns.** It is refused for a duplicate id exactly under the strict policy and
with the first id of the external index that both have. It is otherwise refused exactly where a
reference of the entries that it keeps leads to neither index. In all other cases it returns a
frozen index with the entries of the first index and then the kept ones; the first index wins the
look-ups by id and by name, and its listings come first. Two frozen indices can always be merged
under the lenient policy. -/
theorem merge_outcome (hL : L.Reachable) (hE : E.Reachable) (tL : L.HasTextIds)
    (tE : E.HasTextIds) (policy : MergePolicy) :
    (∀ id, L.merge E policy = .error (.duplicateId id) ↔
      policy = .strict ∧ ∃ s, sharedId? L E = some s ∧ id = .string s) ∧
    ((∃ refs, L.merge E policy = .error (.dangling refs)) ↔
      (policy = .strict → sharedId? L E = none) ∧ LeavesUnresolved policy L E) ∧
    ((policy = .strict → sharedId? L E = none) → ¬LeavesUnresolved policy L E →
      ∃ M, L.merge E policy = .ok M ∧ M.frozen = true ∧
        M.entries = L.entries ++ kept policy L E ∧
        (∀ x, M.find? (.string x) = (L.find? (.string x)).or (E.find? (.string x))) ∧
        (∀ scope aoid o, L.operation? scope aoid = some o → M.operation? scope aoid = some o) ∧
        ∀ scope aoid, L.concreteMethods scope aoid <+: M.concreteMethods scope aoid) ∧
    (policy = .localWins → L.frozen = true → E.frozen = true →
      ∃ M, L.merge E policy = .ok M) := by
  have cL := hL.coherent
  have cE := hE.coherent
  by_cases hshared : policy = .strict ∧ ∃ s, sharedId? L E = some s
  · obtain ⟨rfl, s, hs⟩ := hshared
    have herr := merge_of_sharedId? cL cE tE hs
    refine ⟨fun id => ⟨fun h => ?_, ?_⟩, iff_of_false ?_ ?_, fun hn => ?_, nofun⟩
    · rw [herr, Except.error.injEq, Fault.duplicateId.injEq] at h
      exact ⟨rfl, s, hs, h.symm⟩
    · rintro ⟨-, s', hs', rfl⟩
      rw [herr, Option.some.inj (hs.symm.trans hs')]
    · simp [herr]
    · simp [hs]
    · simp [hs] at hn
  · have hfree : policy = .strict → sharedId? L E = none := fun hp =>
      Option.eq_none_iff_forall_ne_some.2 fun s hs => hshared ⟨hp, s, hs⟩
    have hno : ∀ id, ¬(policy = .strict ∧ ∃ s, sharedId? L E = some s ∧ id = Json.string s) :=
      fun _ ⟨hp, s, hs, _⟩ => hshared ⟨hp, s, hs⟩
    by_cases h : LeavesUnresolved policy L E
    · obtain ⟨refs, hrefs⟩ := merge_error_of_leavesUnresolved cL cE tL tE hfree h
      refine ⟨fun id => iff_of_false (by simp [hrefs]) (hno id),
        iff_of_true ⟨refs, hrefs⟩ ⟨hfree, h⟩, fun _ hn => absurd h hn, fun _ fL fE => ?_⟩
      exact absurd h (not_leavesUnresolved_of_frozen cL cE fL fE)
    · obtain ⟨M, hM, hf, hentries⟩ := merge_ok_of_not_leavesUnresolved cL cE tL tE hfree h
      exact ⟨fun id => iff_of_false (by simp [hM]) (hno id),
        iff_of_false (by simp [hM]) fun hn => h hn.2,
        fun _ _ =>
          ⟨M, hM, hf, hentries, views_of_append_kept cL cE (coherent_of_merge hM) hentries⟩,
        fun _ _ _ => ⟨M, hM⟩⟩

end Outcome

/-- The clause and the method of `pair` merged with a copy of themselves: the strict policy names
the id of the clause, and the other one keeps the second method although its clause is left out. -/
theorem merge_outcome_pair :
    pair.Reachable ∧ pair.HasTextIds ∧
    pair.merge pair .strict = .error (.duplicateId (.string "sec-a")) ∧
    ∃ M, pair.merge pair .localWins = .ok M ∧ M.entries = pairEntries ++ pairEntries.drop 1 := by
  have h := pair_reachable
  have hids : Entry.ids pair.entries = ["sec-a"] := by
    rw [pair_state.1]
    rfl
  have hkept : kept .localWins pair pair = pairEntries.drop 1 := by
    rw [kept, hids, pair_state.1]
    rfl
  obtain ⟨hdup, -, -, -⟩ := merge_outcome h h pair_hasTextIds pair_hasTextIds .strict
  obtain ⟨-, hdang, hok, hfrozen⟩ :=
    merge_outcome h h pair_hasTextIds pair_hasTextIds .localWins
  refine ⟨h, pair_hasTextIds, (hdup _).2 ⟨rfl, "sec-a", ?_, rfl⟩, ?_⟩
  · rw [sharedId?, hids]
    rfl
  · obtain ⟨M, hM⟩ := hfrozen rfl pair_state.2 pair_state.2
    have hres : ¬LeavesUnresolved .localWins pair pair := fun hun => by
      obtain ⟨refs, hrefs⟩ := hdang.2 ⟨by simp, hun⟩
      rw [hM] at hrefs
      cases hrefs
    obtain ⟨M', hM', -, hentries, -⟩ := hok (by simp) hres
    exact ⟨M', hM', by rw [hentries, hkept, pair_state.1]⟩

end Concordance.Index
