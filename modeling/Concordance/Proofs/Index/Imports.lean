import Concordance.Proofs.Index.Actions

/-!
# Several imported indices

An import is the frozen index that its entries make if they are consistent (`Consistent`). Imported
indices are combined in the order they are given and then merged into the index of a document. If
they are frozen this fails for a duplicate id only, and whether it does can be told from the entries
of all imports together (`Clash`), so it does not depend on their order. What is found under an id
does not depend on it either. What is found under the name of an operation does, unless no two
imports have an operation with that name (`Sole`): then the operations of that name come from one
import, in the order they have there.
-/

namespace Concordance

namespace Index

/-! ## References that lead to an entry -/

/-- Some entry answers to a reference. -/
def Answers (es : List Entry) (refId : Json) : Prop :=
  ∃ e ∈ es, ∃ k, refId.key? = some k ∧ e.hasKey k = true

/-- Every reference of the entries is answered by one of them. -/
def Closed (es : List Entry) : Prop := ∀ e ∈ es, e.refId.isSet = true → Answers es e.refId

theorem Answers.mono {es es' : List Entry} {refId : Json} (h : Answers es refId)
    (hsub : ∀ e ∈ es, e ∈ es') : Answers es' refId := by
  obtain ⟨e, he, hk⟩ := h
  exact ⟨e, hsub e he, hk⟩

theorem Coherent.danglingRefs_eq_nil_iff {ix : Index} (hc : ix.Coherent) :
    ix.danglingRefs = [] ↔ Closed ix.entries := by
  have hfind : ∀ r, (ix.find? r).isSome = true ↔ Answers ix.entries r := fun r => by
    rw [find?, Option.isSome_iff_exists, Answers]
    simp only [Option.bind_eq_some_iff, hc.byKey_eq_some_iff]
    grind
  rw [danglingRefs, List.filter_eq_nil_iff, Closed]
  simp only [List.mem_map, forall_exists_index, and_imp, forall_apply_eq_imp_iff₂, isDangling,
    Bool.and_eq_true, not_and, ← hfind, Option.isNone_iff_eq_none, ← Option.isSome_iff_ne_none]

theorem Coherent.closed {ix : Index} (hc : ix.Coherent) (hf : ix.frozen = true) :
    Closed ix.entries := hc.danglingRefs_eq_nil_iff.1 (hc.resolved hf)

theorem Open.exists_freeze {ix : Index} (ho : ix.Open) (h : Closed ix.entries) :
    ∃ ix' : Index, ix.freeze = .ok ix' ∧ ix'.Coherent ∧ ix'.frozen = true ∧
      ix'.entries = ix.entries := by
  have hfreeze := freeze_ok_iff.2 ⟨ho.1.danglingRefs_eq_nil_iff.2 h, rfl⟩
  exact ⟨_, hfreeze, ho.1.freeze hfreeze, rfl, rfl⟩

/-- An index whose views are in step and that takes no more entries. -/
structure Sealed (ix : Index) : Prop where
  coherent : ix.Coherent
  frozen : ix.frozen = true

/-- Entries that make a frozen index: each can be inserted, no id is there twice, and every
reference leads to one of them. -/
structure Consistent (es : List Entry) : Prop where
  insertable : ∀ e ∈ es, e.Insertable
  apart : es.Pairwise Entry.Apart
  closed : Closed es

theorem Consistent.exists_frozen {es : List Entry} (h : Consistent es) :
    ∃ ix : Index, (empty.insertAll es >>= freeze) = .ok ix ∧ ix.Sealed ∧ ix.entries = es := by
  obtain ⟨all, hall, ho, hes⟩ := open_empty.exists_insertAll h.insertable h.apart
  obtain ⟨ix, hfreeze, hc, hf, heq⟩ := ho.exists_freeze (hes ▸ h.closed)
  exact ⟨ix, bind_ok_iff.2 ⟨all, hall, hfreeze⟩, ⟨hc, hf⟩, heq.trans hes⟩

theorem consistent_of_frozen {es : List Entry} {ix : Index}
    (h : (empty.insertAll es >>= freeze) = .ok ix) : Consistent es := by
  obtain ⟨all, hall, hfreeze⟩ := bind_ok_iff.1 h
  have hc := (open_empty.insertAll hall).1
  obtain rfl : all.entries = es := entries_of_insertAll hall
  exact ⟨hc.insertable, hc.apart, hc.danglingRefs_eq_nil_iff.1 (freeze_ok_iff.1 hfreeze).1⟩

/-! ## Combining and merging frozen indices -/

section Sealed

variable {ix external : Index} {ixs : List Index}

theorem Sealed.closed (h : ix.Sealed) : Closed ix.entries := h.coherent.closed h.frozen

theorem insertable_of_sealed (h : ∀ ix ∈ ixs, ix.Sealed) :
    ∀ e ∈ ixs.flatMap entries, e.Insertable := by
  intro e he
  obtain ⟨ix, hix, he⟩ := List.mem_flatMap.1 he
  exact (h ix hix).coherent.insertable e he

theorem combine_ok (h : ∀ ix ∈ ixs, ix.Sealed)
    (hap : (ixs.flatMap entries).Pairwise Entry.Apart) :
    ∃ ix : Index, combine ixs = .ok ix ∧ ix.Sealed ∧ ix.entries = ixs.flatMap entries := by
  refine Consistent.exists_frozen ⟨insertable_of_sealed h, hap, fun e he hset => ?_⟩
  obtain ⟨ix, hix, he⟩ := List.mem_flatMap.1 he
  exact ((h ix hix).closed e he hset).mono fun e' he' => List.mem_flatMap.2 ⟨ix, hix, he'⟩

theorem combine_error (h : ∀ ix ∈ ixs, ix.Sealed)
    (hnot : ¬(ixs.flatMap entries).Pairwise Entry.Apart) :
    ∃ id, combine ixs = .error (.duplicateId id) := by
  obtain ⟨id, hid⟩ := open_empty.insertAll_error (insertable_of_sealed h) hnot
  exact ⟨id, bind_error_iff.2 (.inl hid)⟩

/-- A merge loses no answer: an entry that is left out has a key of the first index. -/
theorem Answers.filter_not_isTaken (hc : ix.Coherent) (hx : external.Coherent) {refId : Json}
    (h : Answers external.entries refId) :
    Answers (ix.entries ++ external.entries.filter (!ix.isTaken ·)) refId := by
  obtain ⟨e, he, k, hk, hkey⟩ := h
  by_cases htaken : ix.isTaken e = true
  · have hnot := htaken
    rw [← Bool.not_eq_false, isTaken_eq_false_iff hc (hx.insertable e he)] at hnot
    unfold Entry.Apart at hnot
    push Not at hnot
    obtain ⟨e', he', hset', -, heq⟩ := hnot
    exact ⟨e', List.mem_append_left _ he', k, hk,
      Entry.hasKey_iff.2 ⟨hset', heq.trans (Entry.hasKey_iff.1 hkey).2⟩⟩
  · exact ⟨e, List.mem_append_right _ (List.mem_filter.2 ⟨he, by simpa using htaken⟩), k, hk, hkey⟩

/-- Frozen indices are merged unless an id is taken that the policy does not allow to be. -/
theorem Sealed.merge_ok {policy : MergePolicy} (h : ix.Sealed) (hx : external.Sealed)
    (hfree : policy = .strict → ∀ e ∈ external.entries, ix.isTaken e = false) :
    ∃ merged : Index, ix.merge external policy = .ok merged ∧ merged.Sealed ∧
      merged.entries = ix.entries ++ external.entries.filter (!ix.isTaken ·) := by
  obtain ⟨all, ho, hes, heq⟩ := exists_merge_eq_freeze_filter h.coherent hx.coherent hfree
  have hclosed : Closed all.entries := by
    rw [hes]
    intro e he hset
    rcases List.mem_append.1 he with he | he
    · exact (h.closed e he hset).mono fun _ => List.mem_append_left _
    · exact (hx.closed e (List.mem_filter.1 he).1 hset).filter_not_isTaken h.coherent hx.coherent
  obtain ⟨merged, hfreeze, hc, hf, hentries⟩ := ho.exists_freeze hclosed
  exact ⟨merged, heq.trans hfreeze, ⟨hc, hf⟩, hentries.trans hes⟩

theorem Sealed.merge_error (h : ix.Sealed) (hx : external.Sealed) {e : Entry}
    (he : e ∈ external.entries) (htaken : ix.isTaken e = true) :
    ∃ id, ix.merge external .strict = .error (.duplicateId id) := by
  obtain ⟨e', hfind⟩ := Option.isSome_iff_exists.1 (List.find?_isSome.2 ⟨e, he, htaken⟩)
  exact ⟨e'.id, merge_of_isTaken h.coherent hx.coherent hfind⟩

end Sealed

/-! ## Orders of imports -/

/-- Imports that cannot be used with an index: two of their entries have one key, or an entry has a
key of the index and the policy is strict. -/
def Clash (policy : MergePolicy) (ix : Index) (imports : List Index) : Prop :=
  ¬(imports.flatMap entries).Pairwise Entry.Apart ∨
    policy = .strict ∧ ∃ e ∈ imports.flatMap entries, ix.isTaken e = true

/-- The entries that a merge takes from an import. -/
def admitted (ix external : Index) : List Entry := external.entries.filter (!ix.isTaken ·)

/-- The operations with a name among entries. -/
def named (n : Name) (es : List Entry) : List OperationEntry :=
  (Entry.operations es).filter (·.name = n)

/-- No two imports have an operation with a name. -/
def Sole (imports : List Index) (n : Name) : Prop :=
  imports.Pairwise fun a b => named n a.entries = [] ∨ named n b.entries = []

theorem named_append (n : Name) (es es' : List Entry) :
    named n (es ++ es') = named n es ++ named n es' := by
  rw [named, Entry.operations_append, List.filter_append]
  rfl

theorem named_flatMap {α : Type} (n : Name) (f : α → List Entry) (as : List α) :
    named n (as.flatMap f) = as.flatMap fun a => named n (f a) := by
  induction as with
  | nil => rfl
  | cons a as ih => rw [List.flatMap_cons, List.flatMap_cons, named_append, ih]

theorem named_filter_eq_nil {n : Name} {es : List Entry} (p : Entry → Bool) (h : named n es = []) :
    named n (es.filter p) = [] := by
  have hsub : (named n (es.filter p)).Sublist (named n es) :=
    (List.filter_sublist.filterMap _).filter _
  rw [h] at hsub
  exact List.sublist_nil.1 hsub

/-- Lists of which at most one has elements can be joined in any order. -/
theorem flatMap_eq_of_perm {α β : Type} {f : α → List β} {as bs : List α} (h : as.Perm bs)
    (hsole : as.Pairwise fun a b => f a = [] ∨ f b = []) : as.flatMap f = bs.flatMap f := by
  induction h with
  | nil => rfl
  | cons a _ ih => rw [List.flatMap_cons, List.flatMap_cons, ih hsole.of_cons]
  | swap a b as =>
    have hab := (List.pairwise_cons.1 hsole).1 a List.mem_cons_self
    simp only [List.flatMap_cons]
    rcases hab with h | h <;> simp [h]
  | trans h₁ _ ih₁ ih₂ =>
    have hsymm : ∀ {a b : α}, f a = [] ∨ f b = [] → f b = [] ∨ f a = [] := Or.symm
    rw [ih₁ hsole, ih₂ ((h₁.pairwise_iff hsymm).1 hsole)]

section Orders

variable {policy : MergePolicy} {ix : Index} {imports imports' : List Index}

theorem clash_perm (h : imports.Perm imports') :
    Clash policy ix imports ↔ Clash policy ix imports' := by
  have hes : (imports.flatMap entries).Perm (imports'.flatMap entries) := h.flatMap_right _
  rw [Clash, Clash, hes.pairwise_iff Entry.Apart.symm]
  simp only [hes.mem_iff]

theorem named_admitted_of_sole {n : Name} (h : imports.Perm imports') (hsole : Sole imports n) :
    named n (imports.flatMap ix.admitted) = named n (imports'.flatMap ix.admitted) := by
  rw [named_flatMap, named_flatMap]
  exact flatMap_eq_of_perm h (hsole.imp fun hab =>
    hab.imp (named_filter_eq_nil _) (named_filter_eq_nil _))

end Orders

section Views

variable {ix ix' : Index} (hc : ix.Coherent) (hc' : ix'.Coherent)
include hc hc'

/-- What is found under an id does not depend on the order of the entries. -/
theorem Coherent.find?_eq_of_perm (h : ix.entries.Perm ix'.entries) (id : Json) :
    ix.find? id = ix'.find? id := by
  refine Option.bind_congr fun k _ => Option.ext fun e => ?_
  rw [hc.byKey_eq_some_iff, hc'.byKey_eq_some_iff, h.mem_iff]

theorem Coherent.concreteMethods_perm (h : ix.entries.Perm ix'.entries) (scope aoid : String) :
    (ix.concreteMethods scope aoid).Perm (ix'.concreteMethods scope aoid) := by
  rw [hc.concreteMethods_eq, hc'.concreteMethods_eq]
  exact (h.filterMap _).filter _

/-- What is found under a name depends on the operations with that name. -/
theorem Coherent.views_eq_of_named {n : Name} (h : named n ix.entries = named n ix'.entries) :
    ix.operation? n.1 n.2 = ix'.operation? n.1 n.2 ∧
      ix.concreteMethods n.1 n.2 = ix'.concreteMethods n.1 n.2 := by
  constructor
  · show ix.firsts[n]? = ix'.firsts[n]?
    rw [hc.firsts_eq, hc'.firsts_eq, ← List.head?_filter, ← List.head?_filter]
    exact congrArg List.head? h
  · show ix.concretes.getD n [] = ix'.concretes.getD n []
    rw [hc.concretes_eq, hc'.concretes_eq]
    simpa only [named, List.filter_filter, Bool.decide_and] using
      congrArg (List.filter (·.kind = concreteMethod)) h

end Views

end Index

end Concordance
