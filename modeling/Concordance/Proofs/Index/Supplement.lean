import Concordance.Proofs.Index.Grouping
import Concordance.Proofs.Index.Reload

/-!
# Supplementary indices

Under the lenient policy an external entry is left out where its own id is taken in the first index.
So an operation without an id of its own is always taken over, whatever becomes of the entry that
its reference leads to. There are two consequences. An index that is merged with its own snapshot
lists such a method twice, although nothing else about it changes (`merge_own_snapshot`). And where
the entry that such an operation referred to is left out, the operation now refers to the entry of
the first index that has the same id (`merge_leads`). Operations with an id of their own are not
affected.
-/

namespace Concordance

namespace Index

/-! ## Merged views -/

section Merged

variable {L E M : Index} (hL : L.Coherent) (hE : E.Coherent) (hM : M.Coherent)
  (h : M.entries = L.entries ++ L.admitted E)
include hL hM h

include hE in
/-- What is found under an id is what the first index has, or else what the external one has. -/
theorem find?_merged (id : Json) : M.find? id = (L.find? id).or (E.find? id) := by
  cases hk : id.key? with
  | none => simp [find?, hk]
  | some k =>
    simp only [find?, hk, Option.bind_some, hL.byKey_eq, hE.byKey_eq, hM.byKey_eq, h,
      List.find?_append]
    cases hfound : L.entries.find? (Entry.hasKey k) with
    | some e => rfl
    | none =>
      -- an entry with the key is admitted, since the first index has none
      have hfree : ∀ e : Entry, e.hasKey k = true → L.isTaken e = false := fun e he => by
        simp [isTaken, find?, (Entry.hasKey_iff.1 he).2, hL.byKey_eq, hfound]
      rw [Option.none_or, Option.none_or, admitted, List.find?_filter]
      congr 1
      funext e
      cases he : e.hasKey k with
      | false => simp
      | true => simp [hfree e he]

theorem operation?_merged (scope aoid : String) : M.operation? scope aoid =
    (L.operation? scope aoid).or
      ((Entry.operations (L.admitted E)).find? fun o => o.scope = scope ∧ o.aoid = aoid) := by
  rw [hM.operation?_eq, hL.operation?_eq, h, Entry.operations_append, List.find?_append]

theorem concreteMethods_merged (scope aoid : String) : M.concreteMethods scope aoid =
    L.concreteMethods scope aoid ++ (Entry.operations (L.admitted E)).filter
      fun o => o.kind = concreteMethod ∧ o.scope = scope ∧ o.aoid = aoid := by
  rw [hM.concreteMethods_eq, hL.concreteMethods_eq, h, Entry.operations_append, List.filter_append]

end Merged

/-! ## An index merged with itself -/

section Self

variable {L M : Index}

theorem isTaken_of_mem (hL : L.Coherent) {e : Entry} (he : e ∈ L.entries) :
    L.isTaken e = e.id.isSet := by
  cases hset : e.id.isSet with
  | false => simp [isTaken, hset]
  | true => simp [isTaken, hset, hL.find?_id he hset]

/-- Of itself an index takes the entries without an id. -/
theorem admitted_self (hL : L.Coherent) : L.admitted L = L.entries.filter (!·.id.isSet) :=
  List.filter_congr fun e he => by rw [isTaken_of_mem hL he]

theorem operations_filter_id (p : Json → Bool) (es : List Entry) :
    Entry.operations (es.filter fun e => p e.id) =
      (Entry.operations es).filter fun o => p o.id := by
  rw [Entry.operations, Entry.operations, List.filterMap_filter, List.filter_filterMap]
  refine List.filterMap_congr fun e _ => ?_
  cases e with
  | operation o => rfl
  | clause c => simp [Entry.operation?]
  | table t => simp [Entry.operation?]

variable (hL : L.Coherent) (hM : M.Coherent) (h : M.entries = L.entries ++ L.admitted L)
include hL hM h

theorem find?_merged_self (id : Json) : M.find? id = L.find? id := by
  rw [find?_merged hL hL hM h, Option.or_self]

theorem operation?_merged_self (scope aoid : String) :
    M.operation? scope aoid = L.operation? scope aoid := by
  rw [operation?_merged hL hM h]
  cases hfound : L.operation? scope aoid with
  | some o => rfl
  | none =>
    -- no operation has the name, so none without an id has it
    rw [hL.operation?_eq, List.find?_eq_none] at hfound
    rw [Option.none_or, admitted_self hL, operations_filter_id (!·.isSet), List.find?_eq_none]
    exact fun o ho => hfound o (List.mem_filter.1 ho).1

theorem concreteMethods_merged_self (scope aoid : String) : M.concreteMethods scope aoid =
    L.concreteMethods scope aoid ++ (L.concreteMethods scope aoid).filter (!·.id.isSet) := by
  rw [concreteMethods_merged hL hM h, admitted_self hL, operations_filter_id (!·.isSet),
    List.filter_comm, ← hL.concreteMethods_eq]

end Self

/-- The snapshot of a frozen index is read back as that very index. -/
theorem toIndex_ofIndex_self {L : Index} (h : L.Reachable) (hf : L.frozen = true)
    (hv : ∀ e ∈ L.entries, e.Valid) : Snapshot.toIndex (Snapshot.ofIndex L).toJson = .ok L := by
  have hres : L.Resolves := danglingRefs_eq_nil_iff_resolves.1 (h.coherent.resolved hf)
  obtain ⟨L', hread, hf', -, hentries⟩ := Snapshot.toIndex_ofIndex h.coherent hres hv
  rw [hread, (Reachable.stored hread).eq_of_entries h hentries (hf'.trans hf.symm)]

/-- **What changes when an index is merged with its own snapshot.** A frozen index is read back from
its snapshot as it was, and can be merged with it under the lenient policy. The entries without an
id are then there a second time. What is found under an id or a name stays the same. The methods of
a name are followed by those of them without an id, so that their list stays the same exactly where
each of them has an id of its own. -/
theorem merge_own_snapshot {L : Index} (h : L.Reachable) (hf : L.frozen = true)
    (hv : ∀ e ∈ L.entries, e.Valid) :
    Snapshot.toIndex (Snapshot.ofIndex L).toJson = .ok L ∧
    ∃ M, L.merge L .localWins = .ok M ∧
      M.entries = L.entries ++ L.entries.filter (!·.id.isSet) ∧
      (∀ id, M.find? id = L.find? id) ∧
      (∀ scope aoid, M.operation? scope aoid = L.operation? scope aoid) ∧
      ∀ scope aoid,
        M.concreteMethods scope aoid =
          L.concreteMethods scope aoid ++ (L.concreteMethods scope aoid).filter (!·.id.isSet) ∧
        (M.concreteMethods scope aoid = L.concreteMethods scope aoid ↔
          ∀ o ∈ L.concreteMethods scope aoid, o.id.isSet = true) := by
  have s := h.sealed hf
  obtain ⟨M, hM, sM, hentries⟩ := s.merge_of_fits s .localWins (fits_localWins _ _)
  refine ⟨toIndex_ofIndex_self h hf hv, M, hM, hentries.trans (by rw [admitted_self s.coherent]),
    find?_merged_self s.coherent sM.coherent hentries,
    operation?_merged_self s.coherent sM.coherent hentries, fun scope aoid => ?_⟩
  have hmethods := concreteMethods_merged_self s.coherent sM.coherent hentries scope aoid
  refine ⟨hmethods, ?_⟩
  rw [hmethods, List.append_right_eq_self, List.filter_eq_nil_iff]
  simp

/-- Another clause with the id of the one of `pair`, and a method of the same name that has an id of
its own. -/
def rivalEntries : List Entry :=
  [.clause ⟨"sec-a", "9", "B", "ns", .null, .null⟩,
   .operation ⟨"F", concreteMethod, "ns", none, [], .string "m", .string "sec-a", .null⟩]

/-- The frozen index of these entries. -/
def rival : Index := (rivalEntries.map Request.add ++ [Request.freeze]).foldl after empty

theorem rival_reachable : rival.Reachable := ((Reachable.empty.after _).after _).after _

theorem rival_state : rival.entries = rivalEntries ∧ rival.frozen = true := by
  simp [rival, rivalEntries, after, answer, add, insert, withKey, Entry.id, Entry.refId,
    Json.isSet, Json.key?, empty, bind, Except.bind, pure, Except.pure, freeze, danglingRefs,
    isDangling, find?]

theorem merge_own_snapshot_rival : rival.Reachable ∧ rival.frozen = true ∧
    (∀ e ∈ rival.entries, e.Valid) ∧
    Snapshot.toIndex (Snapshot.ofIndex rival).toJson = .ok rival ∧
    ∃ M, rival.merge rival .localWins = .ok M ∧ M.entries = rivalEntries ∧
      M.concreteMethods "ns" "F" = rival.concreteMethods "ns" "F" := by
  obtain ⟨hes, hf⟩ := rival_state
  have hv : ∀ e ∈ rival.entries, e.Valid := by simp [hes, rivalEntries, Entry.Valid]
  obtain ⟨hread, M, hM, hentries, -, -, hmethods⟩ := merge_own_snapshot rival_reachable hf hv
  refine ⟨rival_reachable, hf, hv, hread, M, hM, ?_, (hmethods "ns" "F").2.2 ?_⟩
  · rw [hentries, hes]
    rfl
  · rw [rival_reachable.coherent.concreteMethods_eq, hes]
    simp [rivalEntries, Entry.operations, Entry.operation?, Json.isSet]

/-- The method of `pair`, which has no id of its own. -/
def pairMethod : OperationEntry :=
  ⟨"F", concreteMethod, "ns", none, [], .null, .string "sec-a", .null⟩

/-- The method of `pair` is listed twice. -/
theorem listed_twice_pair : pair.Reachable ∧ pair.frozen = true ∧
    Snapshot.toIndex (Snapshot.ofIndex pair).toJson = .ok pair ∧
    ∃ M, pair.merge pair .localWins = .ok M ∧
      pair.concreteMethods "ns" "F" = [pairMethod] ∧
      M.concreteMethods "ns" "F" = [pairMethod, pairMethod] := by
  obtain ⟨hes, hf⟩ := pair_state
  have hv : ∀ e ∈ pair.entries, e.Valid := by simp [hes, pairEntries, Entry.Valid]
  have s : pair.Sealed := pair_reachable.sealed hf
  obtain ⟨M, hM, sM, hentries⟩ := s.merge_of_fits s .localWins (fits_localWins _ _)
  have hmethods : pair.concreteMethods "ns" "F" = [pairMethod] := by
    rw [s.coherent.concreteMethods_eq, hes]
    rfl
  refine ⟨pair_reachable, hf, toIndex_ofIndex_self pair_reachable hf hv, M, hM, hmethods, ?_⟩
  rw [concreteMethods_merged_self s.coherent sM.coherent hentries, hmethods]
  rfl

/-! ## Where links lead -/

/-- Where links to an operation lead in an index. -/
def leadsTo (ix : Index) (o : OperationEntry) : Option Entry := ix.find? o.anchor

section Leads

variable {L E M : Index}

theorem Coherent.leadsTo_of_anchor (hL : L.Coherent) {o : OperationEntry} {e : Entry}
    (he : e ∈ L.entries) (hid : e.id.isSet = true) (ho : o.anchor = e.id) :
    L.leadsTo o = some e := by
  rw [leadsTo, ho, hL.find?_id he hid]

theorem leadsTo_merged (hL : L.Coherent) (hE : E.Coherent) (hM : M.Coherent)
    (h : M.entries = L.entries ++ L.admitted E) (o : OperationEntry) :
    M.leadsTo o = (L.leadsTo o).or (E.leadsTo o) := find?_merged hL hE hM h o.anchor

theorem leadsTo_eq_none_of_admitted {o : OperationEntry} (ho : .operation o ∈ L.admitted E)
    (hset : o.id.isSet = true) : L.leadsTo o = none := by
  have hfree : L.isTaken (.operation o) = false := by simpa using (List.mem_filter.1 ho).2
  rw [leadsTo, OperationEntry.anchor, if_pos hset]
  simpa [isTaken, Entry.id, hset] using hfree

end Leads

/-- **What changes for an operation that is taken over.** Two frozen indices are always merged under
the lenient policy. Links to an operation of the first index lead where they led in it. Links to one
that is taken over led to an entry of the external index. They still lead there if the operation has
an id of its own. Otherwise they lead to what the first index has under its reference, and to what
the external one has only if there is nothing; so they lead where they led exactly where the first
index has no other entry there. -/
theorem merge_leads {L E : Index} (hL : L.Reachable) (hE : E.Reachable) (fL : L.frozen = true)
    (fE : E.frozen = true) :
    ∃ M, L.merge E .localWins = .ok M ∧ M.entries = L.entries ++ L.admitted E ∧
      (∀ o, .operation o ∈ L.entries → (L.leadsTo o).isSome = true ∧ M.leadsTo o = L.leadsTo o) ∧
      ∀ o, .operation o ∈ L.admitted E →
        (E.leadsTo o).isSome = true ∧
        (o.id.isSet = true → M.leadsTo o = E.leadsTo o) ∧
        (o.id.isSet = false → M.leadsTo o = (L.find? o.refId).or (E.find? o.refId)) ∧
        (M.leadsTo o = E.leadsTo o ↔ ∀ e, L.leadsTo o = some e → E.leadsTo o = some e) := by
  have sL := hL.sealed fL
  have sE := hE.sealed fE
  obtain ⟨M, hM, sM, hentries⟩ := sL.merge_of_fits sE .localWins (fits_localWins _ _)
  have hleads := leadsTo_merged sL.coherent sE.coherent sM.coherent hentries
  refine ⟨M, hM, hentries, fun o ho => ?_, fun o ho => ⟨?_, fun hset => ?_, fun hset => ?_, ?_⟩⟩
  · obtain ⟨e, he⟩ : ∃ e, L.leadsTo o = some e := sL.coherent.exists_find?_anchor fL ho
    rw [hleads, he]
    exact ⟨rfl, rfl⟩
  · obtain ⟨e, he⟩ := sE.coherent.exists_find?_anchor fE (List.mem_filter.1 ho).1
    rw [leadsTo, he]
    rfl
  · -- an id that were taken would have kept the operation out
    rw [hleads, leadsTo_eq_none_of_admitted ho hset, Option.none_or]
  · rw [leadsTo, find?_merged sL.coherent sE.coherent sM.coherent hentries, OperationEntry.anchor,
      if_neg (by simp [hset])]
  · rw [hleads]
    cases L.leadsTo o with
    | none => simp
    | some e => simp [eq_comm]

theorem merge_leads_rival : pair.Reachable ∧ rival.Reachable ∧ pair.frozen = true ∧
    rival.frozen = true ∧
    ∃ M, pair.merge rival .localWins = .ok M ∧
      ∀ o ∈ Entry.operations rivalEntries, M.leadsTo o = rival.leadsTo o := by
  obtain ⟨hes, hf⟩ := pair_state
  obtain ⟨hes', hf'⟩ := rival_state
  obtain ⟨M, hM, -, -, hadmitted⟩ := merge_leads pair_reachable rival_reachable hf hf'
  refine ⟨pair_reachable, rival_reachable, hf, hf', M, hM, fun o ho => ?_⟩
  obtain rfl := List.mem_singleton.1 ho
  refine (hadmitted _ (List.mem_filter.2 ⟨?_, ?_⟩)).2.1 rfl
  · simp [hes', rivalEntries]
  · simp [isTaken, find?, Json.key?, Entry.id, pair_reachable.coherent.byKey_eq, hes, pairEntries,
      Entry.hasKey, Json.isSet]

/-- The method of `pair` is taken over without its clause and leads to the other one. -/
theorem leads_elsewhere_pair : rival.Reachable ∧ pair.Reachable ∧ rival.frozen = true ∧
    pair.frozen = true ∧
    ∃ M, rival.merge pair .localWins = .ok M ∧
      .operation pairMethod ∈ pair.entries ∧ .operation pairMethod ∈ M.entries ∧
      pair.leadsTo pairMethod = some pairEntries[0] ∧ M.leadsTo pairMethod = some rivalEntries[0] ∧
      M.leadsTo pairMethod ≠ pair.leadsTo pairMethod := by
  obtain ⟨hes, hf⟩ := pair_state
  obtain ⟨hes', hf'⟩ := rival_state
  have s : pair.Sealed := pair_reachable.sealed hf
  have s' : rival.Sealed := rival_reachable.sealed hf'
  obtain ⟨M, hM, sM, hentries⟩ := s'.merge_of_fits s .localWins (fits_localWins _ _)
  have hpair : pair.leadsTo pairMethod = some pairEntries[0] :=
    s.coherent.leadsTo_of_anchor (by simp [hes, pairEntries]) rfl rfl
  have hrival : rival.leadsTo pairMethod = some rivalEntries[0] :=
    s'.coherent.leadsTo_of_anchor (by simp [hes', rivalEntries]) rfl rfl
  have hmerged : M.leadsTo pairMethod = some rivalEntries[0] := by
    rw [leadsTo_merged s'.coherent s.coherent sM.coherent hentries, hrival]
    rfl
  have hin : .operation pairMethod ∈ pair.entries := by simp [hes, pairEntries, pairMethod]
  have hfree : rival.isTaken (.operation pairMethod) = false := rfl
  refine ⟨rival_reachable, pair_reachable, hf', hf, M, hM, hin, ?_, hpair, hmerged, ?_⟩
  · rw [hentries]
    exact List.mem_append_right _ (List.mem_filter.2 ⟨hin, by rw [hfree]; rfl⟩)
  · rw [hmerged, hpair]
    simp [rivalEntries, pairEntries]

end Index

end Concordance
