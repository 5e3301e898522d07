import Concordance.Proofs.Index.Merge
import Mathlib.Data.List.Induction

/-!
# The views in a snapshot

A snapshot has tables of its own: it groups the anchors of the operations while it goes through the
entries, and leaves out what is not set. Both levels of the grouping are `alter`, and what it has
under a name is the list of all that was added under it, or nothing where nothing was
(`listed_anchorTable`).

The main statement `Reachable.snapshot_views` compares the tables with the look-ups of the index.
Because every entry of an index has an id or a reference, no operation is left out.
-/

namespace Concordance

namespace Snapshot

/-! ## Grouping under keys -/

section Alter

variable {α β : Type}

/-- Puts a new value under a key in place of the one that may be there; a new key goes last. -/
def alter : List (String × β) → String → (Option β → β) → List (String × β)
  | [], key, f => [(key, f none)]
  | (k, b) :: rest, key, f =>
    if k = key then (k, f (some b)) :: rest else (k, b) :: alter rest key f

theorem lookup_cons_eq_ite (k key : String) (b : β) (rest : List (String × β)) :
    ((k, b) :: rest).lookup key = if k = key then some b else rest.lookup key := by
  by_cases h : k = key
  · subst h
    simp
  · have hne : (key == k) = false := by simpa using Ne.symm h
    simp [List.lookup_cons, h, hne]

theorem lookup_alter (table : List (String × β)) (key key' : String) (f : Option β → β) :
    (alter table key f).lookup key' =
      if key = key' then some (f (table.lookup key)) else table.lookup key' := by
  induction table with
  | nil => simp [alter, lookup_cons_eq_ite]
  | cons m table ih =>
    obtain ⟨k, b⟩ := m
    by_cases hk : k = key
    · subst hk
      rw [alter, if_pos rfl, lookup_cons_eq_ite, lookup_cons_eq_ite, lookup_cons_eq_ite,
        if_pos rfl]
      split <;> rfl
    · rw [alter, if_neg hk, lookup_cons_eq_ite, lookup_cons_eq_ite, lookup_cons_eq_ite,
        if_neg hk, ih]
      by_cases h : k = key'
      · rw [if_pos h, if_neg (h ▸ Ne.symm hk), if_pos h]
      · rw [if_neg h, if_neg h]

theorem mem_keys_alter {table : List (String × β)} {key key' : String} {f : Option β → β} :
    key' ∈ (alter table key f).map (·.1) ↔ key' = key ∨ key' ∈ table.map (·.1) := by
  induction table with
  | nil => simp [alter]
  | cons m table ih =>
    obtain ⟨k, b⟩ := m
    by_cases hk : k = key
    · simp [alter, hk]
    · rw [alter, if_neg hk, List.map_cons, List.map_cons, List.mem_cons, List.mem_cons, ih]
      exact or_left_comm

theorem nodup_keys_alter {table : List (String × β)} (h : (table.map (·.1)).Nodup) (key : String)
    (f : Option β → β) : ((alter table key f).map (·.1)).Nodup := by
  induction table with
  | nil => simp [alter]
  | cons m table ih =>
    obtain ⟨k, b⟩ := m
    obtain ⟨hnew, hrest⟩ := List.nodup_cons.1 h
    by_cases hk : k = key
    · rw [alter, if_pos hk]
      exact h
    · rw [alter, if_neg hk]
      refine List.nodup_cons.2 ⟨fun hmem => ?_, ih hrest⟩
      exact (mem_keys_alter.1 hmem).elim hk hnew

theorem push_eq_alter (groups : List (String × List α)) (key : String) (a : α) :
    push groups key a = alter groups key fun as => as.getD [] ++ [a] := by
  induction groups with
  | nil => rfl
  | cons g groups ih =>
    obtain ⟨k, as⟩ := g
    by_cases hk : k = key <;> simp [push, alter, hk, ih]

end Alter

theorem pushAnchor_eq_alter (table : List (String × List (String × List Json))) (n : Name)
    (a : Json) :
    pushAnchor table n a = alter table n.1 fun names => push (names.getD []) n.2 a := by
  induction table with
  | nil => rfl
  | cons m table ih =>
    obtain ⟨k, names⟩ := m
    by_cases hk : k = n.1 <;> simp [pushAnchor, alter, hk, ih]

/-! ## The anchors of operations -/

/-- The anchors under a name. -/
def listed (table : List (String × List (String × List Json))) (n : Name) : Option (List Json) :=
  (table.lookup n.1).bind (·.lookup n.2)

/-- The table of the anchors of operations. -/
def anchorTable (os : List OperationEntry) : List (String × List (String × List Json)) :=
  os.foldl (fun table o => pushAnchor table (o.scope, o.aoid) o.anchor) []

theorem anchorTable_concat (os : List OperationEntry) (o : OperationEntry) :
    anchorTable (os ++ [o]) = pushAnchor (anchorTable os) o.name o.anchor := by
  rw [anchorTable, List.foldl_concat]
  rfl

theorem listed_pushAnchor (table : List (String × List (String × List Json))) (n n' : Name)
    (a : Json) :
    listed (pushAnchor table n a) n' =
      if n = n' then some ((listed table n).getD [] ++ [a]) else listed table n' := by
  obtain ⟨scope, aoid⟩ := n
  obtain ⟨scope', aoid'⟩ := n'
  rw [listed, pushAnchor_eq_alter, lookup_alter]
  dsimp only
  by_cases hs : scope = scope'
  · subst hs
    rw [if_pos rfl, Option.bind_some, push_eq_alter, lookup_alter]
    cases hl : table.lookup scope <;> simp [listed, hl]
  · simp [hs, listed]

/-- Under a name that an operation has are the anchors of all operations with it, in order. -/
theorem listed_anchorTable (os : List OperationEntry) (n : Name) :
    listed (anchorTable os) n =
      (os.find? (·.name = n)).map fun _ => (os.filter (·.name = n)).map (·.anchor) := by
  induction os using List.reverseRecOn with
  | nil => rfl
  | append_singleton os o ih =>
    rw [anchorTable_concat, listed_pushAnchor, List.find?_append, List.filter_append,
      List.map_append]
    by_cases h : o.name = n
    · subst h
      rw [if_pos rfl, ih]
      cases hfind : os.find? (·.name = o.name) with
      | none =>
        have hnone : os.filter (·.name = o.name) = [] :=
          List.filter_eq_nil_iff.2 (List.find?_eq_none.1 hfind)
        simp [hnone]
      | some first => simp
    · simp [h, ih]

/-- No namespace is there twice, and no name is there twice in one. -/
theorem nodup_keys_anchorTable (os : List OperationEntry) :
    ((anchorTable os).map (·.1)).Nodup ∧
    ∀ scope names, (anchorTable os).lookup scope = some names → (names.map (·.1)).Nodup := by
  induction os using List.reverseRecOn with
  | nil => exact ⟨List.nodup_nil, fun scope names h => by cases h⟩
  | append_singleton os o ih =>
    obtain ⟨hscopes, hnames⟩ := ih
    rw [anchorTable_concat, pushAnchor_eq_alter]
    refine ⟨nodup_keys_alter hscopes _ _, fun scope names h => ?_⟩
    rw [lookup_alter] at h
    split at h
    · rw [← Option.some.inj h, push_eq_alter]
      refine nodup_keys_alter ?_ _ _
      cases hl : (anchorTable os).lookup o.name.1 with
      | none => exact List.nodup_nil
      | some names => exact hnames _ _ hl
    · exact hnames scope names h

end Snapshot

namespace Index

open Snapshot (listed anchorTable)

/-! ## The tables of an index -/

theorem mem_byId_iff {ix : Index} {v row : Json} :
    (v, row) ∈ (Snapshot.ofIndex ix).byId ↔
      ∃ e ∈ ix.entries, e.id.isSet = true ∧ e.id = v ∧ e.toJson = row := by
  simp only [Snapshot.ofIndex, List.mem_map, List.mem_filter, Prod.mk.injEq, and_assoc]

theorem mem_keys_byId_iff {ix : Index} {v : Json} :
    v ∈ (Snapshot.ofIndex ix).byId.map (·.1) ↔ v.isSet = true ∧ ∃ e ∈ ix.entries, e.id = v := by
  rw [List.mem_map]
  constructor
  · rintro ⟨⟨v, row⟩, hmem, rfl⟩
    obtain ⟨e, he, hset, rfl, -⟩ := mem_byId_iff.1 hmem
    exact ⟨hset, e, he, rfl⟩
  · rintro ⟨hset, e, he, rfl⟩
    exact ⟨(e.id, e.toJson), mem_byId_iff.2 ⟨e, he, hset, rfl, rfl⟩, rfl⟩

theorem exists_string_of_isSet {v : Json} (h : v.isText = true ∨ v.isNull = true)
    (hset : v.isSet = true) : ∃ x, x ≠ "" ∧ v = .string x := by
  cases v with
  | string x => exact ⟨x, Json.isSet_string.1 hset, rfl⟩
  | null => cases hset
  | _ => simp [Json.isText, Json.isNull] at h

namespace Coherent

variable {ix : Index} (hc : ix.Coherent)
include hc

/-- No operation is left out of the table. -/
theorem anchors_eq :
    (Snapshot.ofIndex ix).anchors = anchorTable (Entry.operations ix.entries) := by
  have hall : (Entry.operations ix.entries).filter (·.anchor.isSet) =
      Entry.operations ix.entries := List.filter_eq_self.2 fun o ho =>
    OperationEntry.isSet_anchor (hc.insertable _ (Entry.mem_operations_iff.1 ho))
  change anchorTable ((Entry.operations ix.entries).filter (·.anchor.isSet)) = _
  rw [hall]

theorem listed_anchors (scope aoid : String) :
    listed (Snapshot.ofIndex ix).anchors (scope, aoid) =
      (ix.operation? scope aoid).map fun _ => ((Entry.operations ix.entries).filter
        fun o => o.scope = scope ∧ o.aoid = aoid).map (·.anchor) := by
  rw [hc.anchors_eq, Snapshot.listed_anchorTable, hc.operation?_eq]
  simp only [OperationEntry.name, Prod.mk.injEq]

theorem nodup_keys_byId : ((Snapshot.ofIndex ix).byId.map (·.1)).Nodup := by
  have hmap : (Snapshot.ofIndex ix).byId.map (·.1) =
      (ix.entries.filter (·.id.isSet)).map (·.id) := List.map_map
  rw [hmap]
  refine List.pairwise_map.2 ((List.pairwise_filter.2 (hc.apart.imp ?_)))
  exact fun {e e'} hap hset hset' heq => hap hset hset' (congrArg Json.key? heq)

end Coherent

/-- In a frozen index with texts for ids the anchor of every operation is the id of an entry. -/
theorem Coherent.exists_id_eq_anchor {ix : Index} (hc : ix.Coherent) (ht : ix.HasTextIds)
    (hf : ix.frozen = true) {o : OperationEntry} (ho : .operation o ∈ ix.entries) :
    ∃ e ∈ ix.entries, e.id = o.anchor := by
  have htext : o.anchor.isText = true ∨ o.anchor.isNull = true := by
    unfold OperationEntry.anchor
    split
    · exact (ht _ ho).1
    · exact (ht _ ho).2
  obtain ⟨x, -, hx⟩ :=
    exists_string_of_isSet htext (OperationEntry.isSet_anchor (hc.insertable _ ho))
  obtain ⟨e, he⟩ := hc.exists_find?_anchor hf ho
  rw [hx] at he ⊢
  obtain ⟨hmem, hid⟩ := hc.find?_string_eq_some_iff.1 he
  exact ⟨e, hmem, (Json.ident?_eq_some_iff.1 hid).1⟩

/-- **The tables of a snapshot agree with the look-ups of the index.** The ids that are not empty
are the keys of the one table, each once, and the row under an id is the stored form of the entry
found under it, at the place of that entry among the rows. The other table has a name exactly if an
operation is found under it, namespaces and names each once, and then it has the anchors of all
operations with that name, in order, one for each: the first is that of the operation found, those
of the concrete methods are among them in the same order, and in the snapshot of a frozen index all
are ids of the one table. -/
theorem Reachable.snapshot_views {ix : Index} (h : ix.Reachable) (ht : ix.HasTextIds) :
    ((Snapshot.ofIndex ix).byId.map (·.1)).Nodup ∧
    (∀ v, v ∈ (Snapshot.ofIndex ix).byId.map (·.1) ↔
      ∃ x, x ≠ "" ∧ v = .string x ∧ ∃ e ∈ ix.entries, e.id = .string x) ∧
    (∀ x row, (Json.string x, row) ∈ (Snapshot.ofIndex ix).byId ↔
      ∃ (e : Entry) (i : Nat), ix.find? (.string x) = some e ∧ ix.entries[i]? = some e ∧
        row = e.toJson ∧ (Snapshot.ofIndex ix).entries[i]? = some row) ∧
    ((Snapshot.ofIndex ix).anchors.map (·.1)).Nodup ∧
    (∀ scope names, (Snapshot.ofIndex ix).anchors.lookup scope = some names →
      (names.map (·.1)).Nodup) ∧
    ∀ scope aoid,
      (((Snapshot.ofIndex ix).anchors.lookup scope).bind (·.lookup aoid)).isSome =
        (ix.operation? scope aoid).isSome ∧
      ∀ as, ((Snapshot.ofIndex ix).anchors.lookup scope).bind (·.lookup aoid) = some as →
        as = ((Entry.operations ix.entries).filter
          fun o => o.scope = scope ∧ o.aoid = aoid).map (·.anchor) ∧
        as.head? = (ix.operation? scope aoid).map (·.anchor) ∧
        ((ix.concreteMethods scope aoid).map (·.anchor)).Sublist as ∧
        (ix.frozen = true → ∀ a ∈ as, a ∈ (Snapshot.ofIndex ix).byId.map (·.1)) := by
  have hc := h.coherent
  obtain ⟨hscopes, hnames⟩ := Snapshot.nodup_keys_anchorTable (Entry.operations ix.entries)
  rw [← hc.anchors_eq] at hscopes hnames
  refine ⟨hc.nodup_keys_byId, fun v => ?_, fun x row => ?_, hscopes, hnames,
    fun scope aoid => ⟨?_, fun as has => ?_⟩⟩
  · rw [mem_keys_byId_iff]
    constructor
    · rintro ⟨hset, e, he, rfl⟩
      obtain ⟨x, hne, hx⟩ := exists_string_of_isSet (ht e he).1 hset
      exact ⟨x, hne, hx, e, he, hx⟩
    · rintro ⟨x, hne, rfl, he⟩
      exact ⟨Json.isSet_string.2 hne, he⟩
  · rw [mem_byId_iff]
    constructor
    · rintro ⟨e, he, hset, hid, rfl⟩
      obtain ⟨i, hi⟩ := List.mem_iff_getElem?.1 he
      have hrow : (Snapshot.ofIndex ix).entries[i]? = some e.toJson := by
        rw [Snapshot.ofIndex, List.getElem?_map, hi]
        rfl
      exact ⟨e, i, hid ▸ hc.find?_id he hset, hi, rfl, hrow⟩
    · rintro ⟨e, i, hfind, -, rfl, -⟩
      obtain ⟨he, hid⟩ := hc.find?_string_eq_some_iff.1 hfind
      obtain ⟨hid, hne⟩ := Json.ident?_eq_some_iff.1 hid
      exact ⟨e, he, hid ▸ Json.isSet_string.2 hne, hid, rfl⟩
  · exact (congrArg Option.isSome (hc.listed_anchors scope aoid)).trans Option.isSome_map
  · have hlisted := (hc.listed_anchors scope aoid).symm.trans has
    obtain ⟨first, hfirst, rfl⟩ := Option.map_eq_some_iff.1 hlisted
    refine ⟨rfl, ?_, ?_, fun hf a ha => ?_⟩
    · rw [List.head?_map, List.head?_filter, ← hc.operation?_eq]
    · rw [hc.concreteMethods_eq]
      refine (List.monotone_filter_right _ fun o ho => ?_).map _
      exact decide_eq_true (of_decide_eq_true ho).2
    · obtain ⟨o, ho, rfl⟩ := List.mem_map.1 ha
      have hmem := Entry.mem_operations_iff.1 (List.mem_of_mem_filter ho)
      exact mem_keys_byId_iff.2
        ⟨OperationEntry.isSet_anchor (hc.insertable _ hmem), hc.exists_id_eq_anchor ht hf hmem⟩

/-- A concrete method with a reference and no id of its own is listed under the id of its clause. -/
theorem snapshot_views_pair : pair.Reachable ∧ pair.HasTextIds ∧ pair.frozen = true ∧
    (∃ row, (Json.string "sec-a", row) ∈ (Snapshot.ofIndex pair).byId) ∧
    ((Snapshot.ofIndex pair).anchors.lookup "ns").bind (·.lookup "F") =
      some [.string "sec-a"] := by
  obtain ⟨he, hf⟩ := pair_state
  have h := pair_reachable
  obtain ⟨-, hkeys, -, -, -, hnames⟩ := h.snapshot_views pair_hasTextIds
  obtain ⟨hsome, hall⟩ := hnames "ns" "F"
  have hfound : (pair.operation? "ns" "F").isSome = true := by
    rw [h.coherent.operation?_eq, he]
    rfl
  obtain ⟨as, has⟩ := Option.isSome_iff_exists.1 (hsome.trans hfound)
  have hkey : Json.string "sec-a" ∈ (Snapshot.ofIndex pair).byId.map (·.1) := by
    refine (hkeys _).2 ⟨"sec-a", by decide, rfl, ?_⟩
    rw [he]
    exact ⟨_, List.mem_cons_self, rfl⟩
  obtain ⟨⟨v, row⟩, hmem, rfl⟩ := List.mem_map.1 hkey
  refine ⟨h, pair_hasTextIds, hf, ⟨row, hmem⟩, has.trans (congrArg some ?_)⟩
  rw [(hall as has).1, he]
  rfl

end Index

end Concordance
