import Concordance.Action
import Concordance.Proofs.Index.Merge
import Mathlib.Data.List.TakeWhile

/-!
# Carrying out actions

Actions that end without a fault insert their entries one after another and report all that they
report (`perform_ok_iff`); so the entries of the index are those that were in it and those that the
actions add (`entries_of_perform`). How actions end can be told from what they add before one of
them gives up (`fault_perform`). Whether actions on an empty index end without a fault can be read
off the keys of what they add (`exists_perform`), and so can whether the index can be frozen then
(`Index.Coherent.danglingRefs_eq`).
-/

namespace Concordance

namespace Index

/-! ## Insertions one after another -/

theorem entries_of_insertAll {ix ix' : Index} {es : List Entry}
    (h : ix.insertAll es = .ok ix') : ix'.entries = ix.entries ++ es := by
  induction es generalizing ix with
  | nil =>
    obtain rfl := Except.ok.inj h
    exact (List.append_nil _).symm
  | cons e es ih =>
    rw [insertAll, List.foldlM_cons, bind_ok_iff] at h
    obtain ⟨ix₁, h₁, h⟩ := h
    rw [ih h, entries_of_insert h₁, List.append_assoc, List.singleton_append]

/-- An entry is refused exactly where it is not apart from the entries that are there. -/
theorem Open.insert_error {ix : Index} (ho : ix.Open) {e : Entry} (he : e.Insertable)
    (hnot : ¬∀ e' ∈ ix.entries, e'.Apart e) : ix.insert e = .error (.duplicateId e.id) := by
  have htaken : ix.isTaken e = true := by
    rw [← Bool.not_eq_false, isTaken_eq_false_iff ho.1 he]
    exact hnot
  rw [isTaken, Bool.and_eq_true, find?, Option.isSome_iff_exists] at htaken
  obtain ⟨hset, e', hfound⟩ := htaken
  obtain ⟨k, hk, hfound⟩ := Option.bind_eq_some_iff.1 hfound
  have hmem : k ∈ ix.byKey := by
    rw [Std.HashMap.mem_iff_isSome_getElem?, hfound]
    rfl
  exact insert_error_iff.2 (.inr (.inr ⟨k, Entry.hasKey_iff.2 ⟨hset, hk⟩, hmem, rfl⟩))

theorem Open.insertAll_error {ix : Index} (ho : ix.Open) {es : List Entry}
    (hes : ∀ e ∈ es, e.Insertable) (hnot : ¬(ix.entries ++ es).Pairwise Entry.Apart) :
    ∃ id, ix.insertAll es = .error (.duplicateId id) := by
  induction es generalizing ix with
  | nil =>
    rw [List.append_nil] at hnot
    exact absurd ho.1.apart hnot
  | cons e es ih =>
    obtain ⟨he, hes⟩ := List.forall_mem_cons.1 hes
    rw [Index.insertAll, List.foldlM_cons]
    by_cases hap : ∀ e' ∈ ix.entries, e'.Apart e
    · obtain ⟨ix₁, h₁, ho₁, he₁⟩ := ho.exists_insert he hap
      obtain ⟨id, hid⟩ := ih ho₁ hes (by rw [he₁, List.append_assoc]; exact hnot)
      exact ⟨id, bind_error_iff.2 (.inr ⟨ix₁, h₁, hid⟩)⟩
    · exact ⟨_, bind_error_iff.2 (.inl (ho.insert_error he hap))⟩

end Index

/-! ## Actions one after another -/

namespace Action

/-- All that actions do which end without a fault. -/
theorem perform_ok_iff {ix ix' : Index} {as : List Action} {ds : List Diagnostic}
    (hopen : ix.frozen = false) : perform ix as = ⟨ix', ds, none⟩ ↔
      (∀ f, .halt f ∉ as) ∧ ix.insertAll (additions as) = .ok ix' ∧ reports as = ds := by
  induction as generalizing ix ds with
  | nil =>
    rw [perform, Outcome.mk.injEq]
    constructor
    · rintro ⟨rfl, rfl, -⟩
      exact ⟨fun f => List.not_mem_nil, rfl, rfl⟩
    · rintro ⟨-, h, rfl⟩
      exact ⟨Except.ok.inj h, rfl, rfl⟩
  | cons a as ih =>
    cases a with
    | report d =>
      have hmem : (∀ f, .halt f ∉ .report d :: as) ↔ ∀ f, .halt f ∉ as := by simp
      have hadd : additions (.report d :: as) = additions as := rfl
      have hreports : reports (.report d :: as) = d :: reports as := rfl
      rw [perform, hmem, hadd, hreports]
      constructor
      · intro h
        obtain ⟨h₁, h₂, h₃⟩ := Outcome.mk.injEq .. ▸ h
        obtain ⟨hhalt, hinsert, hds⟩ := (@ih ix (perform ix as).diagnostics hopen).1
          (by rw [← h₁, ← h₃])
        exact ⟨hhalt, hinsert, by rw [hds, h₂]⟩
      · rintro ⟨hhalt, hinsert, rfl⟩
        rw [(ih hopen).2 ⟨hhalt, hinsert, rfl⟩]
    | add e =>
      have hmem : (∀ f, .halt f ∉ .add e :: as) ↔ ∀ f, .halt f ∉ as := by simp
      have hadd : additions (.add e :: as) = e :: additions as := rfl
      have hreports : reports (.add e :: as) = reports as := rfl
      rw [perform, hmem, hadd, hreports, Index.add_of_open hopen, Index.insertAll,
        List.foldlM_cons, bind_ok_iff]
      cases h : ix.insert e with
      | error f => simp
      | ok ix₁ =>
        rw [ih ((Index.frozen_of_insert h).trans hopen)]
        simp [Index.insertAll]
    | halt f =>
      rw [perform]
      exact iff_of_false (by simp) fun h => h.1 f List.mem_cons_self

/-- Actions that begin with reports carry on as the rest of them does. -/
theorem perform_report_append (ix : Index) (ds : List Diagnostic) (as : List Action) :
    perform ix (ds.map .report ++ as) =
      { perform ix as with diagnostics := ds ++ (perform ix as).diagnostics } := by
  induction ds with
  | nil => rfl
  | cons d ds ih => rw [List.map_cons, List.cons_append, perform, ih]; rfl

/-- The entries after actions that end without a fault. -/
theorem entries_of_perform {ix : Index} {as : List Action} (hopen : ix.frozen = false)
    (h : (perform ix as).fault = none) :
    (perform ix as).index.entries = ix.entries ++ additions as :=
  Index.entries_of_insertAll ((perform_ok_iff hopen).1 (by rw [← h])).2.1

/-- Whether an action gives up. -/
def isHalt : Action → Bool
  | .halt _ => true
  | _ => false

/-- The entries that actions add before one of them gives up. -/
def declared (as : List Action) : List Entry := additions (as.takeWhile (!·.isHalt))

theorem declared_eq_additions {as : List Action} (h : as.any isHalt = false) :
    declared as = additions as := by
  rw [List.any_eq_false] at h
  rw [declared, List.takeWhile_eq_self_iff.2 fun a ha => by simpa using h a ha]

/-- How actions that add entries with keys end: two of the entries that are there or added have one
id; or there are none such, and then the first action that gives up decides, if there is one. -/
theorem fault_perform {ix : Index} (ho : ix.Open) {as : List Action}
    (hes : ∀ e ∈ additions as, e.Insertable) :
    (¬(ix.entries ++ declared as).Pairwise Entry.Apart ∧
      ∃ id, (perform ix as).fault = some (.index (.duplicateId id))) ∨
    ((ix.entries ++ declared as).Pairwise Entry.Apart ∧ as.any isHalt = true ∧
      ∃ f, .halt f ∈ as ∧ (perform ix as).fault = some f) ∨
    ((ix.entries ++ declared as).Pairwise Entry.Apart ∧ as.any isHalt = false ∧
      (perform ix as).fault = none) := by
  induction as generalizing ix with
  | nil => exact .inr (.inr ⟨by simpa [declared, additions] using ho.1.apart, rfl, rfl⟩)
  | cons a as ih =>
    cases a with
    | report d =>
      have hdeclared : declared (.report d :: as) = declared as := rfl
      have hany : (Action.report d :: as).any isHalt = as.any isHalt := rfl
      rw [hdeclared, hany, perform]
      simpa using ih ho hes
    | add e =>
      have hdeclared : declared (.add e :: as) = e :: declared as := rfl
      have hany : (Action.add e :: as).any isHalt = as.any isHalt := rfl
      obtain ⟨he, hes⟩ := List.forall_mem_cons.1 (show ∀ e' ∈ e :: additions as, _ from hes)
      rw [hdeclared, hany, perform, Index.add_of_open ho.2]
      by_cases hap : ∀ e' ∈ ix.entries, e'.Apart e
      · obtain ⟨ix₁, h₁, ho₁, he₁⟩ := ho.exists_insert he hap
        have h := ih ho₁ hes
        rw [he₁, List.append_assoc, List.singleton_append] at h
        rw [h₁]
        simpa using h
      · rw [ho.insert_error he hap]
        refine .inl ⟨fun h => hap fun e' he' => ?_, _, rfl⟩
        exact (List.pairwise_append.1 h).2.2 e' he' e List.mem_cons_self
    | halt f =>
      exact .inr (.inl ⟨by simpa [declared, additions, isHalt] using ho.1.apart, rfl, f,
        List.mem_cons_self, rfl⟩)

end Action

namespace Entry

/-- The key that an entry answers to. -/
def key? (e : Entry) : Option Json.Key := if e.id.isSet then e.id.key? else none

/-- Whether an entry can be inserted: its id has a key, or it has no id and refers to one. -/
def isInsertable (e : Entry) : Bool := if e.id.isSet then e.id.key?.isSome else e.refId.isSet

theorem insertable_of_isInsertable {e : Entry} (h : e.isInsertable = true) : e.Insertable := by
  unfold isInsertable at h
  split at h
  · next hid =>
    obtain ⟨k, hk⟩ := Option.isSome_iff_exists.1 h
    exact ⟨.inl hid, fun _ => ⟨k, hasKey_iff.2 ⟨hid, hk⟩⟩⟩
  · next hid => exact ⟨.inr h, fun h => absurd h hid⟩

theorem pairwise_apart_of_nodup {es : List Entry} (hes : ∀ e ∈ es, e.isInsertable = true)
    (h : (es.filterMap key?).Nodup) : es.Pairwise Apart := by
  rw [List.Nodup, List.pairwise_filterMap] at h
  refine h.imp_of_mem fun {e e'} he _ h hs hs' heq => ?_
  have hinsertable := hes e he
  rw [isInsertable, if_pos hs] at hinsertable
  obtain ⟨k, hk⟩ := Option.isSome_iff_exists.1 hinsertable
  exact h k (by rw [key?, if_pos hs, hk]) k (by rw [key?, if_pos hs', ← heq, hk]) rfl

end Entry

namespace Action

/-- Actions that do not give up and add entries with distinct keys end without a fault. -/
theorem exists_perform (as : List Action) (hhalt : as.any isHalt = false)
    (hinsertable : ∀ e ∈ additions as, e.isInsertable = true)
    (hkeys : ((additions as).filterMap Entry.key?).Nodup) :
    ∃ ix : Index, perform .empty as = ⟨ix, reports as, none⟩ ∧ ix.Open ∧
      ix.entries = additions as := by
  obtain ⟨ix, hix, hopen, hentries⟩ := Index.open_empty.exists_insertAll
    (fun e he => Entry.insertable_of_isInsertable (hinsertable e he))
    (Entry.pairwise_apart_of_nodup hinsertable hkeys)
  have hmem : ∀ f, .halt f ∉ as := fun f hf => by
    rw [List.any_eq_false] at hhalt
    exact hhalt _ hf rfl
  exact ⟨ix, (perform_ok_iff rfl).2 ⟨hmem, hix, rfl⟩, hopen, hentries⟩

end Action

namespace Entry

/-- The entry with an id among entries. -/
def among (es : List Entry) (id : Json) : Option Entry := id.key?.bind fun k => es.find? (hasKey k)

/-- The references of entries that lead to none of them. -/
def danglingRefs (es : List Entry) : List Json :=
  (es.map refId).filter fun r => r.isSet && (among es r).isNone

end Entry

namespace Index.Coherent

variable {ix : Index} (hc : ix.Coherent)
include hc

theorem find?_eq (id : Json) : ix.find? id = Entry.among ix.entries id :=
  Option.bind_congr fun k _ => hc.byKey_eq k

theorem danglingRefs_eq : ix.danglingRefs = Entry.danglingRefs ix.entries := by
  unfold danglingRefs isDangling Entry.danglingRefs
  simp only [hc.find?_eq]

end Index.Coherent

end Concordance
