import Concordance.Proofs.Entry.RoundTrip
import Concordance.Proofs.Index.Merge
import Concordance.Proofs.Json.RoundTrip

/-!
# Reading a snapshot back

A snapshot keeps the entries in order, and they are read back one by one into an empty index that is
then frozen. Decoded entries that are the stored ones up to the order of the members in their values
are as insertable, as much apart and as well resolved as those, since keys and what is set do not
depend on that order. So reading succeeds (`exists_toIndex`), and the new index answers as the old
one does (`Coherent.answers_sorted`). What is loaded from any other text is the index that the
entries in it make, if they do (`load_of_entries?`).

The main statement `reload` has three levels: an entry is read back from its stored form, an index
from its snapshot, and an index from the text of its file as far as that text is read back.
-/

namespace Concordance

open Json (member? Same)

/-! ## What an index asks of entries, up to the order of members -/

namespace Entry

@[simp] theorem hasKey_sorted (k : Json.Key) (e : Entry) : e.sorted.hasKey k = e.hasKey k := by
  rw [hasKey, hasKey, id_sorted, Json.isSet_sorted, Json.key?_sorted]

theorem insertable_sorted_iff {e : Entry} : e.sorted.Insertable ↔ e.Insertable := by
  constructor
  · rintro ⟨hl, hk⟩
    exact ⟨by simpa [Json.isSet_sorted] using hl, by simpa [Json.isSet_sorted] using hk⟩
  · rintro ⟨hl, hk⟩
    exact ⟨by simpa [Json.isSet_sorted] using hl, by simpa [Json.isSet_sorted] using hk⟩

theorem apart_sorted_iff {e e' : Entry} : e.sorted.Apart e'.sorted ↔ e.Apart e' := by
  simp [Apart, Json.isSet_sorted, Json.key?_sorted]

theorem operations_map_sorted (es : List Entry) :
    operations (es.map sorted) = (operations es).map OperationEntry.sorted := by
  simp [operations, List.filterMap_map, List.map_filterMap]

end Entry

namespace Index

/-- Every reference that is set leads to an entry of the index. -/
def Resolves (ix : Index) : Prop :=
  ∀ e ∈ ix.entries, e.refId.isSet = true → (ix.find? e.refId).isSome = true

theorem danglingRefs_eq_nil_iff_resolves {ix : Index} : ix.danglingRefs = [] ↔ ix.Resolves := by
  simp [danglingRefs, isDangling, Resolves, Option.isSome_iff_ne_none]

namespace Coherent

variable {ix ix' : Index} (hc : ix.Coherent) (hc' : ix'.Coherent)
include hc hc'

/-- Indices with the same entries answer alike. -/
theorem answers (h : ix'.entries = ix.entries) :
    (∀ id, ix'.find? id = ix.find? id) ∧
    (∀ scope aoid, ix'.operation? scope aoid = ix.operation? scope aoid) ∧
    ∀ scope aoid, ix'.concreteMethods scope aoid = ix.concreteMethods scope aoid := by
  refine ⟨fun id => ?_, fun scope aoid => ?_, fun scope aoid => ?_⟩
  · cases hk : id.key? with
    | none => rw [find?, find?, hk]; rfl
    | some k => simp only [find?, hk, Option.bind_some, hc.byKey_eq, hc'.byKey_eq, h]
  · rw [hc.operation?_eq, hc'.operation?_eq, h]
  · rw [hc.concreteMethods_eq, hc'.concreteMethods_eq, h]

/-- Indices whose entries are the same up to the order of members answer alike up to it. -/
theorem answers_sorted (h : ix'.entries.map Entry.sorted = ix.entries.map Entry.sorted) :
    (∀ id, (ix'.find? id).map Entry.sorted = (ix.find? id).map Entry.sorted) ∧
    (∀ scope aoid, (ix'.operation? scope aoid).map OperationEntry.sorted =
      (ix.operation? scope aoid).map OperationEntry.sorted) ∧
    ∀ scope aoid, (ix'.concreteMethods scope aoid).map OperationEntry.sorted =
      (ix.concreteMethods scope aoid).map OperationEntry.sorted := by
  have hops : (Entry.operations ix'.entries).map OperationEntry.sorted =
      (Entry.operations ix.entries).map OperationEntry.sorted := by
    rw [← Entry.operations_map_sorted, h, Entry.operations_map_sorted]
  refine ⟨fun id => ?_, fun scope aoid => ?_, fun scope aoid => ?_⟩
  · cases hk : id.key? with
    | none => rw [find?, find?, hk]; rfl
    | some k =>
      have hfind := congrArg (List.find? (Entry.hasKey k)) h
      simp only [List.find?_map, Function.comp_def, Entry.hasKey_sorted] at hfind
      simp only [find?, hk, Option.bind_some, hc.byKey_eq, hc'.byKey_eq, hfind]
  · have hfind := congrArg (List.find? fun o => o.scope = scope ∧ o.aoid = aoid) hops
    simp only [List.find?_map, Function.comp_def, OperationEntry.sorted] at hfind
    rw [hc.operation?_eq, hc'.operation?_eq]
    exact hfind
  · have hfilter := congrArg (List.filter fun o =>
      o.kind = concreteMethod ∧ o.scope = scope ∧ o.aoid = aoid) hops
    simp only [List.filter_map, Function.comp_def, OperationEntry.sorted] at hfilter
    rw [hc.concreteMethods_eq, hc'.concreteMethods_eq]
    exact hfilter

end Coherent

end Index

/-! ## Decoding and inserting -/

namespace Snapshot

open Index (Coherent Resolves)

/-- Rows that can be decoded are inserted as the entries that they hold. -/
theorem foldlM_insertRow {rows : List Json} {es : List Entry}
    (h : List.Forall₂ (fun row e => Entry.ofJson row = .ok e) rows es) (ix : Index) :
    rows.foldlM insertRow ix = (ix.insertAll es).mapError .index := by
  induction h generalizing ix with
  | nil => rfl
  | @cons row e rows es hrow _ ih =>
    have hinsert : insertRow ix row = (ix.insert e).mapError .index := by
      rw [insertRow, hrow]
      rfl
    rw [Index.insertAll, List.foldlM_cons, List.foldlM_cons, mapError_bind, hinsert]
    exact congrArg _ (funext ih)

/-- A value whose rows can be decoded stores the index that their entries make. -/
theorem toIndex_of_rows {ms : List (String × Json)} {rows : List Json} {es : List Entry}
    (hrows : member? ms "entries" = some (.array rows))
    (hes : List.Forall₂ (fun row e => Entry.ofJson row = .ok e) rows es) :
    toIndex (.object ms) = (Index.empty.insertAll es >>= Index.freeze).mapError .index := by
  simp only [toIndex, hrows, foldlM_insertRow hes, mapError_bind]

/-- The entries that a text stores: it is the written form of an object with a list of entries, and
all of them can be decoded. -/
def entries? (text : String) : Option (List Entry) :=
  match Json.parse? .word maxLevels text with
  | some (.object ms) =>
    match member? ms "entries" with
    | some (.array rows) => (rows.mapM Entry.ofJson).toOption
    | _ => none
  | _ => none

/-- What is loaded from a text is the index that the entries in it make. -/
theorem load_of_entries? {text : String} {es : List Entry} (h : entries? text = some es)
    (path : String) :
    load path text = (Index.empty.insertAll es >>= Index.freeze).mapError .index := by
  unfold entries? at h
  unfold load
  split at h
  · next ms hparse =>
    rw [hparse]
    split at h
    · next rows hrows =>
      exact toIndex_of_rows hrows (mapM_ok_iff.1 (toOption_eq_some_iff.1 h))
    · cases h
  · cases h

variable {ix : Index}

/-- Entries that are those of an index up to the order of members can be inserted one by one. -/
theorem exists_insertAll_of_same (hc : ix.Coherent) {es : List Entry}
    (hsame : es.map Entry.sorted = ix.entries.map Entry.sorted) :
    ∃ all : Index, Index.empty.insertAll es = .ok all ∧ all.Coherent ∧ all.entries = es := by
  have hins : ∀ e ∈ es, e.Insertable := by
    intro e he
    have hmem : e.sorted ∈ ix.entries.map Entry.sorted := hsame ▸ List.mem_map_of_mem he
    obtain ⟨e₀, he₀, heq⟩ := List.mem_map.1 hmem
    exact Entry.insertable_sorted_iff.1 (heq ▸ Entry.insertable_sorted_iff.2 (hc.insertable e₀ he₀))
  have hap : es.Pairwise Entry.Apart := by
    have hsorted : (es.map Entry.sorted).Pairwise Entry.Apart := by
      rw [hsame, List.pairwise_map]
      exact hc.apart.imp Entry.apart_sorted_iff.2
    exact (List.pairwise_map.1 hsorted).imp Entry.apart_sorted_iff.1
  obtain ⟨all, hall, hopen, hentries⟩ := Index.open_empty.exists_insertAll hins hap
  exact ⟨all, hall, hopen.1, hentries⟩

/-- References resolve among entries that are the same up to the order of members. -/
theorem resolves_of_same {all : Index} (hc : ix.Coherent) (hall : all.Coherent)
    (hr : ix.Resolves) (hsame : all.entries.map Entry.sorted = ix.entries.map Entry.sorted) :
    all.Resolves := by
  intro e he href
  have hmem : e.sorted ∈ ix.entries.map Entry.sorted := hsame ▸ List.mem_map_of_mem he
  obtain ⟨e₀, he₀, heq⟩ := List.mem_map.1 hmem
  have hsorted : e₀.refId.sorted = e.refId.sorted := by
    rw [← Entry.refId_sorted, heq, Entry.refId_sorted]
  have hset : e₀.refId.isSet = true := by
    rw [← Json.isSet_sorted, hsorted, Json.isSet_sorted, href]
  have hkey : e₀.refId.key? = e.refId.key? := by
    rw [← Json.key?_sorted, hsorted, Json.key?_sorted]
  have hfound := hr e₀ he₀ hset
  have hfind := congrArg Option.isSome ((hc.answers_sorted hall hsame).1 e.refId)
  rw [Option.isSome_map, Option.isSome_map] at hfind
  rw [hfind, Index.find?, ← hkey]
  exact hfound

/-- Rows that hold the entries of an index up to the order of members are read back. -/
theorem exists_toIndex (hc : ix.Coherent) (hr : ix.Resolves) {ms : List (String × Json)}
    {rows : List Json} {es : List Entry} (hrows : member? ms "entries" = some (.array rows))
    (hes : List.Forall₂ (fun row e => Entry.ofJson row = .ok e) rows es)
    (hsame : es.map Entry.sorted = ix.entries.map Entry.sorted) :
    ∃ ix', toIndex (.object ms) = .ok ix' ∧ ix'.frozen = true ∧ ix'.Coherent ∧
      ix'.entries = es := by
  obtain ⟨all, hall, hcall, hentries⟩ := exists_insertAll_of_same hc hsame
  have hres : all.Resolves := resolves_of_same hc hcall hr (hentries ▸ hsame)
  have hfreeze := Index.freeze_ok_iff.2 ⟨Index.danglingRefs_eq_nil_iff_resolves.2 hres, rfl⟩
  refine ⟨_, ?_, rfl, hcall.freeze hfreeze, hentries⟩
  rw [toIndex_of_rows hrows hes, mapError_ok_iff]
  exact bind_ok_iff.2 ⟨all, hall, hfreeze⟩

/-! ## Rows of stored entries -/

theorem forall₂_ofJson {es : List Entry} (hv : ∀ e ∈ es, e.Valid) :
    List.Forall₂ (fun row e => Entry.ofJson row = .ok e) (es.map Entry.toJson) es := by
  rw [List.forall₂_map_left_iff, List.forall₂_same]
  exact fun e he => Entry.ofJson_toJson (hv e he)

/-- Stored entries with their members in any order are read as these entries up to the order of
members. -/
theorem exists_ofJson_of_same {es : List Entry} (hv : ∀ e ∈ es, e.Valid) {rows : List Json}
    (h : List.Forall₂ Same rows (es.map Entry.toJson)) :
    ∃ es', List.Forall₂ (fun row e => Entry.ofJson row = .ok e) rows es' ∧
      es'.map Entry.sorted = es.map Entry.sorted := by
  induction es generalizing rows with
  | nil =>
    obtain rfl := List.forall₂_nil_right_iff.1 h
    exact ⟨[], .nil, rfl⟩
  | cons e es ih =>
    obtain ⟨row, rows, hrow, hrows, rfl⟩ := List.forall₂_cons_right_iff.1 h
    obtain ⟨hve, hves⟩ := List.forall_mem_cons.1 hv
    obtain ⟨e', he', hsame⟩ := Entry.ofJson_of_same hve hrow
    obtain ⟨es', hes', hsames⟩ := ih hves hrows
    exact ⟨e' :: es', .cons he' hes', by rw [List.map_cons, List.map_cons, hsame, hsames]⟩

/-! ## Reading back -/

/-- The snapshot of an index is read back. -/
theorem toIndex_ofIndex (hc : ix.Coherent) (hr : ix.Resolves) (hv : ∀ e ∈ ix.entries, e.Valid) :
    ∃ ix', toIndex (ofIndex ix).toJson = .ok ix' ∧ ix'.frozen = true ∧ ix'.Coherent ∧
      ix'.entries = ix.entries :=
  exists_toIndex hc hr rfl (forall₂_ofJson hv) rfl

/-- The text of a snapshot is read back as far as it is read as what was written. -/
theorem load_store (hc : ix.Coherent) (hr : ix.Resolves) (hv : ∀ e ∈ ix.entries, e.Valid)
    (hread : (ofIndex ix).toJson.ReadsBack .indented maxLevels) {text : String}
    (ht : (ofIndex ix).store? = some text) (path : String) :
    ∃ ix', load path text = .ok ix' ∧ ix'.frozen = true ∧ ix'.Coherent ∧
      ix'.entries.map Entry.sorted = ix.entries.map Entry.sorted := by
  have hstore : (ofIndex ix).toJson.store? .indented = some text := by
    unfold store? at ht
    split at ht
    · exact ht
    · cases ht
  obtain ⟨w, hw, hsame⟩ := hread text hstore
  obtain ⟨ms, rfl, hms⟩ := Same.object hsame (by simp)
  obtain ⟨rows, hrows, hrowsSame⟩ := hms.array (k := "entries") rfl
  obtain ⟨es, hes, hessame⟩ := exists_ofJson_of_same hv hrowsSame
  obtain ⟨ix', hload, hfrozen, hc', hentries⟩ := exists_toIndex hc hr hrows hes hessame
  refine ⟨ix', ?_, hfrozen, hc', hentries ▸ hessame⟩
  rw [load, hw]
  exact hload

/-- **Nothing is lost in a snapshot.** An entry is read back from its stored form when it is valid,
as every entry is that is read from any value. An index that there can be, whose references all
resolve, is read back from its snapshot: the result is frozen, has the same entries in the same
order and answers as the index does. As far as the text of the snapshot is read as what was written,
so is the index from its file, up to the order of the members in loosely typed values. -/
theorem reload :
    (∀ e : Entry, e.Valid → Entry.ofJson e.toJson = .ok e) ∧
    (∀ (v : Json) (e : Entry), Entry.ofJson v = .ok e → Entry.ofJson e.toJson = .ok e) ∧
    ∀ ix : Index, ix.Reachable → ix.Resolves → (∀ e ∈ ix.entries, e.Valid) →
      (∃ ix', toIndex (ofIndex ix).toJson = .ok ix' ∧ ix'.frozen = true ∧
        ix'.entries = ix.entries ∧
        (∀ id, ix'.find? id = ix.find? id) ∧
        (∀ scope aoid, ix'.operation? scope aoid = ix.operation? scope aoid) ∧
        ∀ scope aoid, ix'.concreteMethods scope aoid = ix.concreteMethods scope aoid) ∧
      ((ofIndex ix).toJson.ReadsBack .indented maxLevels →
        ∀ path text, (ofIndex ix).store? = some text →
          ∃ ix', load path text = .ok ix' ∧ ix'.frozen = true ∧
            ix'.entries.map Entry.sorted = ix.entries.map Entry.sorted ∧
            (∀ id, (ix'.find? id).map Entry.sorted = (ix.find? id).map Entry.sorted) ∧
            (∀ scope aoid, (ix'.operation? scope aoid).map OperationEntry.sorted =
              (ix.operation? scope aoid).map OperationEntry.sorted) ∧
            ∀ scope aoid, (ix'.concreteMethods scope aoid).map OperationEntry.sorted =
              (ix.concreteMethods scope aoid).map OperationEntry.sorted) := by
  refine ⟨fun e => Entry.ofJson_toJson,
    fun v e he => Entry.ofJson_toJson (Entry.valid_of_ofJson he), fun ix h hr hv => ⟨?_, ?_⟩⟩
  · obtain ⟨ix', hload, hfrozen, hc', hentries⟩ := toIndex_ofIndex h.coherent hr hv
    exact ⟨ix', hload, hfrozen, hentries, h.coherent.answers hc' hentries⟩
  · intro hread path text ht
    obtain ⟨ix', hload, hfrozen, hc', hentries⟩ := load_store h.coherent hr hv hread ht path
    exact ⟨ix', hload, hfrozen, hentries, h.coherent.answers_sorted hc' hentries⟩

/-- The clause and the method of `pair`, written to a file and read from it. -/
theorem reload_pair : Index.pair.Reachable ∧ Index.pair.Resolves ∧
    ∃ text, (ofIndex Index.pair).store? = some text ∧
      ∃ ix', load "pair.json" text = .ok ix' ∧
        ix'.entries.map Entry.sorted = Index.pairEntries.map Entry.sorted := by
  have h := Index.pair_reachable
  have hentries : Index.pair.entries = Index.pairEntries := Index.pair_state.1
  have hr : Index.pair.Resolves :=
    Index.danglingRefs_eq_nil_iff_resolves.1 (h.coherent.resolved Index.pair_state.2)
  have hv : ∀ e ∈ Index.pair.entries, e.Valid := by
    rw [hentries]
    simp [Index.pairEntries, Entry.Valid]
  have hsnapshot : (ofIndex Index.pair).toJson = .object
      [("entries", .array (Index.pairEntries.map Entry.toJson)),
       ("idToEntry", .object ((Index.pairEntries.take 1).map fun e => ("sec-a", e.toJson))),
       ("byAoidNamespace", .object [("ns", .object [("F", .array [.string "sec-a"])])])] := by
    rw [ofIndex, hentries]
    rfl
  have hreadable : (ofIndex Index.pair).toJson.Readable := by
    rw [hsnapshot]
    simp [Index.pairEntries, Entry.toJson, optionalSignature, Json.Readable, Json.ReadableAll,
      Json.ReadableMembers]
  have htext : (ofIndex Index.pair).hasTextIds = true := by
    rw [ofIndex, hentries]
    rfl
  have hstorable : (decide ((ofIndex Index.pair).toJson.height ≤ Json.maxStoredHeight) &&
      (ofIndex Index.pair).toJson.isStorable) = true := by
    rw [hsnapshot]
    decide
  have hstore : ((ofIndex Index.pair).store?).isSome = true := by
    rw [store?, if_pos htext, Json.store?, if_pos hstorable]
    rfl
  obtain ⟨text, ht⟩ := Option.isSome_iff_exists.1 hstore
  have hread : (ofIndex Index.pair).toJson.ReadsBack .indented maxLevels :=
    hreadable.readsBack .indented (by decide)
  obtain ⟨ix', hload, -, hsame, -⟩ := (reload.2.2 Index.pair h hr hv).2 hread "pair.json" text ht
  exact ⟨h, hr, text, ht, ix', hload, by rw [hsame, hentries]⟩

end Snapshot

end Concordance
