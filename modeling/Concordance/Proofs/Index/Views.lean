import Concordance.Index.Merge
import Concordance.Index.Snapshot
import Concordance.Proofs.Outcome
import Mathlib.Data.List.Pairwise
import Mathlib.Tactic.ByContra
import Std.Data.HashMap.Lemmas

/-!
# The views of an index

An index keeps three views over its list of entries. `Coherent` says that each view is a function
of that list, that no key belongs to two entries, and that a frozen index has no dangling
reference. Inserting an entry keeps it (`Coherent.insert`), and so does everything that makes an
index; `Reachable` lists these ways, and `Hereditary.of_reachable` is the induction over them.

The main statement `Reachable.views_eq` reads the look-ups of a reachable index off its entries.
-/

namespace Concordance

/-! ## Ids that are texts -/

namespace Json

/-- The text that an id or a reference is, unless it is empty. -/
def ident? : Json → Option String
  | .string s => if s = "" then none else some s
  | _ => none

theorem ident?_eq_some_iff {v : Json} {s : String} :
    v.ident? = some s ↔ v = .string s ∧ s ≠ "" := by
  cases v with
  | string t => grind [ident?]
  | _ => simp [ident?]

theorem key?_eq_text_iff {v : Json} {s : String} :
    v.key? = some (.text s) ↔ v = .string s := by
  cases v with
  | float x => by_cases hx : x.isWhole <;> simp [key?, hx]
  | _ => simp [key?]

@[simp] theorem isSet_string {s : String} : (Json.string s).isSet = true ↔ s ≠ "" := by
  simp [isSet]

end Json

namespace Entry

/-- Whether an entry answers to a key: its id is set and has that key. -/
def hasKey (k : Json.Key) (e : Entry) : Bool := e.id.isSet && decide (e.id.key? = some k)

/-- Two entries do not answer to the same key. -/
def Apart (e e' : Entry) : Prop := e.id.isSet → e'.id.isSet → e.id.key? ≠ e'.id.key?

theorem hasKey_iff {k : Json.Key} {e : Entry} :
    e.hasKey k = true ↔ e.id.isSet = true ∧ e.id.key? = some k := by
  simp [hasKey]

theorem hasKey_text_iff {s : String} {e : Entry} :
    e.hasKey (.text s) = true ↔ e.id.ident? = some s := by
  rw [hasKey_iff, Json.key?_eq_text_iff, Json.ident?_eq_some_iff]
  constructor
  · rintro ⟨h, hs⟩
    exact ⟨hs, by simpa [hs] using h⟩
  · rintro ⟨hs, h⟩
    exact ⟨by simpa [hs] using h, hs⟩

theorem Apart.symm {e e' : Entry} (h : e.Apart e') : e'.Apart e := fun h₁ h₂ heq => h h₂ h₁ heq.symm

instance : Std.Symm Apart := ⟨fun _ _ => Apart.symm⟩

theorem Apart.ident?_ne {e e' : Entry} (h : e.Apart e') {s : String} (hs : e.id.ident? = some s) :
    e'.id.ident? ≠ some s := by
  intro hs'
  obtain ⟨h₁, hk⟩ := hasKey_iff.1 (hasKey_text_iff.2 hs)
  obtain ⟨h₁', hk'⟩ := hasKey_iff.1 (hasKey_text_iff.2 hs')
  exact h h₁ h₁' (hk.trans hk'.symm)

/-- What an entry needs to be inserted: an id or a reference, and a key for its id. -/
structure Insertable (e : Entry) : Prop where
  linked : e.id.isSet = true ∨ e.refId.isSet = true
  keyed : e.id.isSet = true → ∃ k, e.hasKey k = true

/-- An id that is a text has a key. -/
theorem insertable_of_ofOption {e : Entry} (id : Option String) (hid : e.id = .ofOption id)
    (hset : e.id.isSet = true ∨ e.refId.isSet = true) : e.Insertable := by
  refine ⟨hset, fun h => ?_⟩
  cases id with
  | none =>
    rw [hid] at h
    cases h
  | some s => exact ⟨.text s, hasKey_iff.2 ⟨h, by rw [hid]; rfl⟩⟩

/-- The ids of entries, as far as they are texts and not empty. -/
def ids (es : List Entry) : List String := es.filterMap (·.id.ident?)

/-- The operations among entries. -/
def operations (es : List Entry) : List OperationEntry := es.filterMap operation?

@[simp] theorem ids_append (es es' : List Entry) : ids (es ++ es') = ids es ++ ids es' :=
  List.filterMap_append

@[simp] theorem operations_append (es es' : List Entry) :
    operations (es ++ es') = operations es ++ operations es' := List.filterMap_append

theorem mem_operations_iff {es : List Entry} {o : OperationEntry} :
    o ∈ operations es ↔ .operation o ∈ es := by
  rw [operations, List.mem_filterMap]
  constructor
  · rintro ⟨e, he, ho⟩
    cases e with
    | operation o' => exact Option.some.inj ho ▸ he
    | clause c => cases ho
    | table t => cases ho
  · exact fun h => ⟨_, h, rfl⟩

theorem mem_ids_iff {es : List Entry} {s : String} :
    s ∈ ids es ↔ ∃ e ∈ es, e.id.ident? = some s := List.mem_filterMap

end Entry

theorem OperationEntry.isSet_anchor {o : OperationEntry}
    (h : (Entry.operation o).Insertable) : o.anchor.isSet = true := by
  unfold anchor
  split
  · next hid => exact hid
  · next hid => exact h.linked.resolve_left hid

/-- The name that an operation is known by. -/
def OperationEntry.name (o : OperationEntry) : Name := (o.scope, o.aoid)

namespace Index

/-! ## What the views are functions of -/

/-- The views of an index are functions of its list of entries, and a frozen index has no dangling
reference. -/
structure Coherent (ix : Index) : Prop where
  insertable : ∀ e ∈ ix.entries, e.Insertable
  apart : ix.entries.Pairwise Entry.Apart
  byKey_eq : ∀ k, ix.byKey[k]? = ix.entries.find? (Entry.hasKey k)
  firsts_eq : ∀ n, ix.firsts[n]? = (Entry.operations ix.entries).find? (·.name = n)
  concretes_eq : ∀ n, ix.concretes.getD n [] =
    (Entry.operations ix.entries).filter fun o => o.kind = concreteMethod ∧ o.name = n
  resolved : ix.frozen = true → ix.danglingRefs = []

theorem coherent_empty : empty.Coherent where
  insertable := by simp [empty]
  apart := by simp [empty]
  byKey_eq := by simp [empty]
  firsts_eq := by simp [empty, Entry.operations]
  concretes_eq := by simp [empty, Entry.operations]
  resolved := by simp [empty]

/-! ## Inserting an entry -/

section Insert

variable {ix ix' : Index} {e : Entry}

theorem withKey_ok_iff {m : Std.HashMap Json.Key Entry} :
    ix.withKey e = .ok m ↔ (e.id.isSet = false ∧ ix.byKey = m) ∨
      ∃ k, e.hasKey k = true ∧ k ∉ ix.byKey ∧ ix.byKey.insert k e = m := by
  unfold withKey
  cases hs : e.id.isSet with
  | false => simp [Entry.hasKey_iff, hs]
  | true =>
    cases hk : e.id.key? with
    | none => simp [Entry.hasKey_iff, hk]
    | some k => by_cases hm : k ∈ ix.byKey <;> simp [Entry.hasKey_iff, hs, hk, hm]

/-- All that a successful insertion does. -/
theorem insert_ok_iff :
    ix.insert e = .ok ix' ↔ (e.id.isSet = true ∨ e.refId.isSet = true) ∧
      ∃ m, ix.withKey e = .ok m ∧
        { entries := ix.entries ++ [e], byKey := m, firsts := withFirst ix.firsts e
          concretes := withConcrete ix.concretes e, frozen := ix.frozen } = ix' := by
  unfold insert
  cases hi : e.id.isSet <;> cases hr : e.refId.isSet <;>
    simp [bind_ok_iff, pure, Except.pure]

/-- All reasons for which an insertion is refused. -/
theorem insert_error_iff {f : Fault} :
    ix.insert e = .error f ↔
      (e.id.isSet = false ∧ e.refId.isSet = false ∧ .unreachable e = f) ∨
      (e.id.isSet = true ∧ e.id.key? = none ∧ .unusableId = f) ∨
      ∃ k, e.hasKey k = true ∧ k ∈ ix.byKey ∧ .duplicateId e.id = f := by
  unfold insert withKey
  cases hid : e.id.isSet with
  | false =>
    cases href : e.refId.isSet <;>
      simp [Entry.hasKey, hid, bind, Except.bind, pure, Except.pure]
  | true =>
    cases hk : e.id.key? with
    | none => simp [Entry.hasKey, hk, bind, Except.bind]
    | some k =>
      by_cases hmem : k ∈ ix.byKey <;>
        simp [Entry.hasKey, hid, hk, hmem, bind, Except.bind, pure, Except.pure]

theorem entries_of_insert (h : ix.insert e = .ok ix') : ix'.entries = ix.entries ++ [e] := by
  obtain ⟨-, m, -, rfl⟩ := insert_ok_iff.1 h
  rfl

theorem frozen_of_insert (h : ix.insert e = .ok ix') : ix'.frozen = ix.frozen := by
  obtain ⟨-, m, -, rfl⟩ := insert_ok_iff.1 h
  rfl

theorem add_of_open (hf : ix.frozen = false) (e : Entry) : ix.add e = ix.insert e := by
  rw [Index.add, hf]
  rfl

theorem add_of_frozen (hf : ix.frozen = true) (e : Entry) : ix.add e = .error .frozen := by
  rw [Index.add, hf]
  rfl

theorem add_ok_iff : ix.add e = .ok ix' ↔ ix.frozen = false ∧ ix.insert e = .ok ix' := by
  cases hf : ix.frozen with
  | true => simp [add_of_frozen hf]
  | false => simp [add_of_open hf]

theorem getElem?_withKey {m : Std.HashMap Json.Key Entry} (h : ix.withKey e = .ok m)
    (k : Json.Key) : m[k]? = ix.byKey[k]?.or ([e].find? (Entry.hasKey k)) := by
  rcases withKey_ok_iff.1 h with ⟨hs, rfl⟩ | ⟨k', hk', hm, rfl⟩
  · have : e.hasKey k = false := by simp [Entry.hasKey, hs]
    simp [this]
  · rw [Std.HashMap.getElem?_insert]
    by_cases hkk : k' = k
    · subst hkk
      simp [hk', Std.HashMap.getElem?_eq_none hm]
    · have : e.hasKey k = false := by
        rw [Bool.eq_false_iff, Ne, Entry.hasKey_iff]
        rintro ⟨-, hk⟩
        exact hkk (Option.some.inj ((Entry.hasKey_iff.1 hk').2.symm.trans hk))
      simp [hkk, this]

theorem getElem?_withFirst (m : Std.HashMap Name OperationEntry) (e : Entry) (n : Name) :
    (withFirst m e)[n]? = m[n]?.or ((Entry.operations [e]).find? (·.name = n)) := by
  cases e with
  | operation o =>
    rw [withFirst, Std.HashMap.getElem?_insertIfNew]
    by_cases hn : o.name = n
    · subst hn
      by_cases hm : o.name ∈ m
      · obtain ⟨v, hv⟩ := Option.isSome_iff_exists.1 (Std.HashMap.mem_iff_isSome_getElem?.1 hm)
        simp_all [OperationEntry.name, Entry.operations, Entry.operation?]
      · simp_all [OperationEntry.name, Entry.operations, Entry.operation?]
    · simp_all [OperationEntry.name, Entry.operations, Entry.operation?]
  | clause c => simp [withFirst, Entry.operations, Entry.operation?]
  | table t => simp [withFirst, Entry.operations, Entry.operation?]

theorem getD_withConcrete (m : Std.HashMap Name (List OperationEntry)) (e : Entry) (n : Name) :
    (withConcrete m e).getD n [] =
      m.getD n [] ++
        (Entry.operations [e]).filter fun o => o.kind = concreteMethod ∧ o.name = n := by
  cases e with
  | operation o =>
    by_cases hc : o.kind = concreteMethod
    · by_cases hn : o.name = n
      · subst hn
        simp [withConcrete, hc, OperationEntry.name, Entry.operations, Entry.operation?]
      · have hn' : ((o.scope, o.aoid) == n) = false := by simpa [OperationEntry.name] using hn
        simp [withConcrete, hc, Entry.operations, Entry.operation?, hn, Std.HashMap.getD_insert,
          hn']
    · simp [withConcrete, hc, Entry.operations, Entry.operation?]
  | clause c => simp [withConcrete, Entry.operations, Entry.operation?]
  | table t => simp [withConcrete, Entry.operations, Entry.operation?]

/-- Inserting into an index that is not frozen keeps its views in step. -/
theorem Coherent.insert (hc : ix.Coherent) (hf : ix.frozen = false) (h : ix.insert e = .ok ix') :
    ix'.Coherent := by
  obtain ⟨hl, m, hm, rfl⟩ := insert_ok_iff.1 h
  refine ⟨?_, ?_, ?_, ?_, ?_, ?_⟩
  · intro e' he'
    rcases List.mem_append.1 he' with he' | he'
    · exact hc.insertable e' he'
    · rw [List.mem_singleton.1 he']
      refine ⟨hl, fun hs => ?_⟩
      rcases withKey_ok_iff.1 hm with ⟨hs', -⟩ | ⟨k, hk, -⟩
      · simp [hs] at hs'
      · exact ⟨k, hk⟩
  · refine List.pairwise_append.2 ⟨hc.apart, List.pairwise_singleton _ _, ?_⟩
    intro e₁ h₁ e₂ h₂ hs₁ hs₂ heq
    rw [List.mem_singleton.1 h₂] at hs₂ heq
    rcases withKey_ok_iff.1 hm with ⟨hs, -⟩ | ⟨k, hk, hk', -⟩
    · simp [hs] at hs₂
    · -- an entry with the key of the new one would be found in the view
      have hfound : (ix.entries.find? (Entry.hasKey k)).isSome = true := by
        rw [List.find?_isSome]
        exact ⟨e₁, h₁, Entry.hasKey_iff.2 ⟨hs₁, heq.trans (Entry.hasKey_iff.1 hk).2⟩⟩
      rw [← hc.byKey_eq, ← Std.HashMap.mem_iff_isSome_getElem?] at hfound
      exact hk' hfound
  · intro k
    rw [getElem?_withKey hm, hc.byKey_eq, List.find?_append]
  · intro n
    rw [getElem?_withFirst, hc.firsts_eq, Entry.operations_append, List.find?_append]
  · intro n
    rw [getD_withConcrete, hc.concretes_eq, Entry.operations_append, List.filter_append]
  · intro hf'
    simp [hf] at hf'

end Insert

/-! ## Freezing and bulk insertion -/

section Freeze

variable {ix ix' : Index}

theorem freeze_ok_iff :
    ix.freeze = .ok ix' ↔ ix.danglingRefs = [] ∧ { ix with frozen := true } = ix' := by
  unfold freeze
  split
  · next h => simp [h]
  · next h =>
    have hd : ix.danglingRefs ≠ [] := h
    split <;> simp [hd]

theorem Coherent.freeze (hc : ix.Coherent) (h : ix.freeze = .ok ix') : ix'.Coherent := by
  obtain ⟨hd, rfl⟩ := freeze_ok_iff.1 h
  exact ⟨hc.insertable, hc.apart, hc.byKey_eq, hc.firsts_eq, hc.concretes_eq, fun _ => hd⟩

/-- A view-keeping index that still takes entries. -/
def Open (ix : Index) : Prop := ix.Coherent ∧ ix.frozen = false

theorem open_empty : empty.Open := ⟨coherent_empty, rfl⟩

theorem Open.insert {e : Entry} (ho : ix.Open) (h : ix.insert e = .ok ix') : ix'.Open :=
  ⟨ho.1.insert ho.2 h, (frozen_of_insert h).trans ho.2⟩

end Freeze

/-! ## Reaching an index -/

/-- What the owner of an index asks of it. -/
inductive Request where
  | add (e : Entry)
  | freeze

/-- The outcome of a request. -/
def answer (ix : Index) : Request → Except Fault Index
  | .add e => ix.add e
  | .freeze => ix.freeze

/-- The index after a request: a refused request leaves it as it was. -/
def after (ix : Index) (r : Request) : Index :=
  match ix.answer r with
  | .ok ix' => ix'
  | .error _ => ix

/-- The indices that there can be: those that their owner makes from the empty one, accepted or
refused, and those that merging, combining and reading a snapshot return. -/
inductive Reachable : Index → Prop where
  | empty : Reachable empty
  | after {ix : Index} (h : Reachable ix) (r : Request) : Reachable (ix.after r)
  | merge {ix external ix' : Index} {policy : MergePolicy} (h : Reachable ix)
      (hext : Reachable external) (hm : ix.merge external policy = .ok ix') : Reachable ix'
  | combine {ixs : List Index} {ix' : Index} (h : ∀ ix ∈ ixs, Reachable ix)
      (hc : combine ixs = .ok ix') : Reachable ix'
  | stored {v : Json} {ix' : Index} (h : Snapshot.toIndex v = .ok ix') : Reachable ix'

/-- What the empty index has, and inserting an entry and freezing keep. -/
structure Hereditary (P : Index → Prop) : Prop where
  empty : P empty
  insert : ∀ {ix ix' : Index} {e : Entry}, P ix → ix.frozen = false → ix.insert e = .ok ix' → P ix'
  freeze : ∀ {ix ix' : Index}, P ix → ix.freeze = .ok ix' → P ix'

namespace Hereditary

variable {P : Index → Prop} (hP : Hereditary P)
include hP

theorem insert_open {ix ix' : Index} {e : Entry} (ho : P ix ∧ ix.frozen = false)
    (h : ix.insert e = .ok ix') : P ix' ∧ ix'.frozen = false :=
  ⟨hP.insert ho.1 ho.2 h, (frozen_of_insert h).trans ho.2⟩

theorem insertAll_open {ix ix' : Index} {es : List Entry} (ho : P ix ∧ ix.frozen = false)
    (h : ix.insertAll es = .ok ix') : P ix' ∧ ix'.frozen = false :=
  foldlM_ok_induction (P := fun ix => P ix ∧ ix.frozen = false)
    (fun _ _ _ => hP.insert_open) ho h

theorem mergeEntry_open {policy : MergePolicy} {ix ix' : Index} {e : Entry}
    (ho : P ix ∧ ix.frozen = false) (h : mergeEntry policy ix e = .ok ix') :
    P ix' ∧ ix'.frozen = false := by
  unfold mergeEntry at h
  split at h
  · cases policy with
    | strict => cases h
    | localWins => exact Except.ok.inj h ▸ ho
  · exact hP.insert_open ho h

theorem insertRow_open {ix ix' : Index} {row : Json} (ho : P ix ∧ ix.frozen = false)
    (h : Snapshot.insertRow ix row = .ok ix') : P ix' ∧ ix'.frozen = false := by
  unfold Snapshot.insertRow at h
  obtain ⟨e, -, h⟩ := bind_ok_iff.1 h
  exact hP.insert_open ho (mapError_ok_iff.1 h)

theorem after {ix : Index} (h : P ix) (r : Request) : P (ix.after r) := by
  unfold Index.after
  split
  · next ix' hr =>
    cases r with
    | add e =>
      obtain ⟨hf, hinsert⟩ := add_ok_iff.1 hr
      exact hP.insert h hf hinsert
    | freeze => exact hP.freeze h hr
  · exact h

theorem of_merge {ix external ix' : Index} {policy : MergePolicy}
    (h : ix.merge external policy = .ok ix') : P ix' := by
  unfold merge at h
  obtain ⟨base, hb, h⟩ := bind_ok_iff.1 h
  obtain ⟨merged, hm, hf⟩ := bind_ok_iff.1 h
  have hmerged : P merged ∧ merged.frozen = false :=
    foldlM_ok_induction (P := fun ix => P ix ∧ ix.frozen = false)
      (fun _ _ _ => hP.mergeEntry_open) (hP.insertAll_open ⟨hP.empty, rfl⟩ hb) hm
  exact hP.freeze hmerged.1 hf

theorem of_combine {ixs : List Index} {ix' : Index} (h : combine ixs = .ok ix') : P ix' := by
  unfold combine at h
  obtain ⟨all, ha, hf⟩ := bind_ok_iff.1 h
  exact hP.freeze (hP.insertAll_open ⟨hP.empty, rfl⟩ ha).1 hf

theorem of_toIndex {v : Json} {ix' : Index} (h : Snapshot.toIndex v = .ok ix') : P ix' := by
  unfold Snapshot.toIndex at h
  split at h
  · split at h
    · obtain ⟨ix, hr, hf⟩ := bind_ok_iff.1 h
      have hix : P ix ∧ ix.frozen = false :=
        foldlM_ok_induction (P := fun ix => P ix ∧ ix.frozen = false)
          (fun _ _ _ => hP.insertRow_open) ⟨hP.empty, rfl⟩ hr
      exact hP.freeze hix.1 (mapError_ok_iff.1 hf)
    · cases h
  · cases h

/-- The induction over all ways to make an index. -/
theorem of_reachable {ix : Index} (h : ix.Reachable) : P ix := by
  induction h with
  | empty => exact hP.empty
  | after _ r ih => exact hP.after ih r
  | merge _ _ hm => exact hP.of_merge hm
  | combine _ hc => exact hP.of_combine hc
  | stored h => exact hP.of_toIndex h

end Hereditary

theorem hereditary_coherent : Hereditary Coherent where
  empty := coherent_empty
  insert := Coherent.insert
  freeze := Coherent.freeze

theorem Open.insertAll {ix ix' : Index} {es : List Entry} (ho : ix.Open)
    (h : ix.insertAll es = .ok ix') : ix'.Open := hereditary_coherent.insertAll_open ho h

theorem coherent_of_merge {ix external ix' : Index} {policy : MergePolicy}
    (h : ix.merge external policy = .ok ix') : ix'.Coherent := hereditary_coherent.of_merge h

/-- Every index that there can be keeps its views in step with its entries. -/
theorem Reachable.coherent {ix : Index} (h : ix.Reachable) : ix.Coherent :=
  hereditary_coherent.of_reachable h

/-! ## Look-ups as functions of the entries -/

namespace Coherent

variable {ix : Index} (hc : ix.Coherent)
include hc

/-- The entry found under a key is the only one that answers to it. -/
theorem byKey_eq_some_iff {k : Json.Key} {e : Entry} :
    ix.byKey[k]? = some e ↔ e ∈ ix.entries ∧ e.hasKey k = true := by
  rw [hc.byKey_eq]
  constructor
  · intro h
    exact ⟨List.mem_of_find?_eq_some h, List.find?_some h⟩
  · rintro ⟨he, hk⟩
    obtain ⟨e', he'⟩ := Option.isSome_iff_exists.1 (List.find?_isSome.2 ⟨e, he, hk⟩)
    rw [he', Option.some.injEq]
    by_contra hne
    have hk' := List.find?_some he'
    obtain ⟨hs, hkey⟩ := Entry.hasKey_iff.1 hk
    obtain ⟨hs', hkey'⟩ := Entry.hasKey_iff.1 hk'
    exact hc.apart.forall (List.mem_of_find?_eq_some he') he hne hs' hs (hkey'.trans hkey.symm)

theorem find?_string_eq_some_iff {x : String} {e : Entry} :
    ix.find? (.string x) = some e ↔ e ∈ ix.entries ∧ e.id.ident? = some x :=
  (hc.byKey_eq_some_iff (k := .text x)).trans (and_congr_right fun _ => Entry.hasKey_text_iff)

theorem find?_string_isSome_iff {x : String} :
    (ix.find? (.string x)).isSome = true ↔ x ∈ Entry.ids ix.entries := by
  rw [Option.isSome_iff_exists, Entry.mem_ids_iff]
  exact exists_congr fun e => hc.find?_string_eq_some_iff

theorem nodup_ids : (Entry.ids ix.entries).Nodup := by
  refine List.pairwise_filterMap.2 (hc.apart.imp ?_)
  intro e e' hap s hs s' hs' heq
  exact hap.ident?_ne hs (heq ▸ hs')

/-- A reference to a text dangles exactly when no entry has that id. -/
theorem isDangling_string_iff {r : String} :
    ix.isDangling (.string r) = true ↔ r ≠ "" ∧ r ∉ Entry.ids ix.entries := by
  rw [isDangling, Bool.and_eq_true, Json.isSet_string, ← Option.not_isSome, Bool.not_eq_true',
    ← hc.find?_string_isSome_iff, Bool.not_eq_true]

/-- An entry with an id is found under it. -/
theorem find?_id {e : Entry} (he : e ∈ ix.entries) (hid : e.id.isSet = true) :
    ix.find? e.id = some e := by
  obtain ⟨k, hk⟩ := (hc.insertable e he).keyed hid
  rw [find?, (Entry.hasKey_iff.1 hk).2]
  exact hc.byKey_eq_some_iff.2 ⟨he, hk⟩

/-- In a frozen index something is found under every reference. -/
theorem exists_find?_refId (hf : ix.frozen = true) {e : Entry} (he : e ∈ ix.entries)
    (href : e.refId.isSet = true) : ∃ e', ix.find? e.refId = some e' := by
  rw [← Option.isSome_iff_exists]
  by_contra hnone
  have hmem : e.refId ∈ ix.danglingRefs :=
    List.mem_filter.2 ⟨List.mem_map_of_mem he, by simpa [isDangling, href] using hnone⟩
  rw [hc.resolved hf] at hmem
  exact List.not_mem_nil hmem

/-- In a frozen index every reference to a text leads to an entry. -/
theorem exists_of_refId (hf : ix.frozen = true) {e : Entry} (he : e ∈ ix.entries) {r : String}
    (hr : e.refId.ident? = some r) : r ∈ Entry.ids ix.entries := by
  obtain ⟨href, hne⟩ := Json.ident?_eq_some_iff.1 hr
  obtain ⟨e', he'⟩ := hc.exists_find?_refId hf he (by rwa [href, Json.isSet_string])
  rw [href] at he'
  rw [← hc.find?_string_isSome_iff, he']
  rfl

/-- In a frozen index something is found under the anchor of every operation. -/
theorem exists_find?_anchor (hf : ix.frozen = true) {o : OperationEntry}
    (ho : .operation o ∈ ix.entries) : ∃ e, ix.find? o.anchor = some e := by
  unfold OperationEntry.anchor
  split
  · next hid => exact ⟨_, hc.find?_id ho hid⟩
  · next hid => exact hc.exists_find?_refId hf ho ((hc.insertable _ ho).linked.resolve_left hid)

/-- What is found under a value is an entry of the index whose id has the key of the value. -/
theorem exists_key_of_find? {v : Json} {e : Entry} (h : ix.find? v = some e) :
    e ∈ ix.entries ∧ ∃ k, v.key? = some k ∧ e.hasKey k = true := by
  obtain ⟨k, hk, h⟩ := Option.bind_eq_some_iff.1 h
  obtain ⟨he, hkey⟩ := hc.byKey_eq_some_iff.1 h
  exact ⟨he, k, hk, hkey⟩

theorem operation?_eq (scope aoid : String) :
    ix.operation? scope aoid =
      (Entry.operations ix.entries).find? fun o => o.scope = scope ∧ o.aoid = aoid := by
  rw [operation?, hc.firsts_eq]
  simp only [OperationEntry.name, Prod.mk.injEq]

theorem concreteMethods_eq (scope aoid : String) :
    ix.concreteMethods scope aoid = (Entry.operations ix.entries).filter
      fun o => o.kind = concreteMethod ∧ o.scope = scope ∧ o.aoid = aoid := by
  rw [concreteMethods, hc.concretes_eq]
  simp only [OperationEntry.name, Prod.mk.injEq]

end Coherent

/-- **The look-ups of a reachable index are functions of its entries.** No id is there twice; the
entry found under an id is the one that has it, and there is none under the empty text; the
operation found under a name is the first with that name, the concrete methods are all those with
that name, in order. Every entry has an id or a reference, and in a frozen index every reference is
the id of an entry. -/
theorem Reachable.views_eq {ix : Index} (h : ix.Reachable) :
    (Entry.ids ix.entries).Nodup ∧
    (∀ (x : String) (e : Entry),
      ix.find? (.string x) = some e ↔ e ∈ ix.entries ∧ e.id = .string x ∧ x ≠ "") ∧
    (∀ scope aoid : String, ix.operation? scope aoid =
      (Entry.operations ix.entries).find? fun o => o.scope = scope ∧ o.aoid = aoid) ∧
    (∀ scope aoid : String, ix.concreteMethods scope aoid = (Entry.operations ix.entries).filter
      fun o => o.kind = concreteMethod ∧ o.scope = scope ∧ o.aoid = aoid) ∧
    (∀ e ∈ ix.entries, e.id.isSet = true ∨ e.refId.isSet = true) ∧
    (ix.frozen = true → ∀ e ∈ ix.entries, ∀ r : String, e.refId = .string r → r ≠ "" →
      ∃ e' ∈ ix.entries, e'.id = .string r) := by
  have hc := h.coherent
  refine ⟨hc.nodup_ids, fun x e => ?_, hc.operation?_eq, hc.concreteMethods_eq,
    fun e he => (hc.insertable e he).linked, ?_⟩
  · rw [hc.find?_string_eq_some_iff, Json.ident?_eq_some_iff]
  · intro hf e he r href hne
    obtain ⟨e', he', hid⟩ := Entry.mem_ids_iff.1
      (hc.exists_of_refId hf he (Json.ident?_eq_some_iff.2 ⟨href, hne⟩))
    exact ⟨e', he', (Json.ident?_eq_some_iff.1 hid).1⟩

/-- A clause, and a concrete method that refers to it. -/
def pairEntries : List Entry :=
  [.clause ⟨"sec-a", "1", "A", "ns", .null, .null⟩,
   .operation ⟨"F", concreteMethod, "ns", none, [], .null, .string "sec-a", .null⟩]

/-- The frozen index of a clause and a method. -/
def pair : Index := (pairEntries.map Request.add ++ [Request.freeze]).foldl after empty

theorem pair_reachable : pair.Reachable := ((Reachable.empty.after _).after _).after _

theorem pair_state : pair.entries = pairEntries ∧ pair.frozen = true := by
  simp [pair, pairEntries, after, answer, add, insert, withKey, Entry.id, Entry.refId,
    Json.isSet, Json.key?, empty, bind, Except.bind, pure, Except.pure, freeze, danglingRefs,
    isDangling, find?]

theorem views_eq_pair : pair.Reachable ∧ pair.frozen = true ∧
    pair.find? (.string "sec-a") = pairEntries.head? ∧
    pair.concreteMethods "ns" "F" = Entry.operations pairEntries := by
  have h := pair_reachable
  obtain ⟨-, hid, -, hconcrete, -⟩ := h.views_eq
  obtain ⟨he, hf⟩ := pair_state
  refine ⟨h, hf, (hid _ _).2 ⟨?_, rfl, by decide⟩, ?_⟩
  · rw [he]
    exact List.mem_cons_self
  · rw [hconcrete, he]
    rfl

end Index

end Concordance
