import Concordance.Markup.Keys
import Concordance.Markup.Reader
import Concordance.Proofs.Outcome
import Mathlib.Data.List.Perm.Basic
import Mathlib.Data.List.Nodup

/-!
# Keys in a tree that is rewritten

An element is found again by its key, wherever it has been moved to. `keyed` lists the tags of the
elements with keys in the order in which keys are looked up, so looking up a key in a tree is
looking it up in that list (`find?_tag`). Where the keys are distinct, a change made at a key leaves
everything else as it is: the tree before and the tree after are one frame around two elements
(`exists_frame`), and what is found under another key is found there still, the change made in it
(`find?_modify_of_ne`).

`Gentle` is what all rewriting during a survey keeps: the elements with keys, though not their
order, and how deep they nest. New contents made from markup have no keys at all (`keyless_parse`).
-/

namespace Concordance

namespace Node

/-! ## The elements with keys -/

mutual
/-- The tags of the elements of a tree that have keys. -/
def keyed : Node → List Tag
  | .text _ _ => []
  | .element tag children removed =>
    (if tag.key.isSome then [tag] else []) ++ (keyedIn children ++ keyedIn removed)

/-- The tags of the elements of trees that have keys. -/
def keyedIn : List Node → List Tag
  | [] => []
  | n :: ns => n.keyed ++ keyedIn ns
end

/-- The keys of a tree. -/
def keys (n : Node) : List Nat := n.keyed.filterMap Tag.key

/-- The keys of trees. -/
def keysIn (ns : List Node) : List Nat := (keyedIn ns).filterMap Tag.key

@[simp] theorem keyedIn_append (ns ms : List Node) :
    keyedIn (ns ++ ms) = keyedIn ns ++ keyedIn ms := by
  induction ns with
  | nil => rfl
  | cons n ns ih => rw [List.cons_append, keyedIn, ih, keyedIn, List.append_assoc]

theorem mem_keyedIn_iff {t : Tag} {ns : List Node} : t ∈ keyedIn ns ↔ ∃ n ∈ ns, t ∈ n.keyed := by
  induction ns with
  | nil => simp [keyedIn]
  | cons n ns ih => simp [keyedIn, ih]

theorem keyedIn_eq_nil_iff {ns : List Node} : keyedIn ns = [] ↔ ∀ n ∈ ns, n.keyed = [] := by
  induction ns with
  | nil => simp [keyedIn]
  | cons n ns ih => simp [keyedIn, ih]

@[simp] theorem keysIn_nil : keysIn [] = [] := rfl

@[simp] theorem keysIn_cons (n : Node) (ns : List Node) :
    keysIn (n :: ns) = n.keys ++ keysIn ns := by
  rw [keysIn, keyedIn, List.filterMap_append]
  rfl

@[simp] theorem keysIn_append (ns ms : List Node) : keysIn (ns ++ ms) = keysIn ns ++ keysIn ms := by
  rw [keysIn, keyedIn_append, List.filterMap_append]
  rfl

theorem keys_element (tag : Tag) (cs rs : List Node) :
    (element tag cs rs).keys = tag.key.toList ++ (keysIn cs ++ keysIn rs) := by
  rw [keys, keyed, List.filterMap_append, List.filterMap_append]
  cases h : tag.key with
  | none => rfl
  | some k => simp [keysIn, h]

theorem mem_keys_iff {n : Node} {k : Nat} : k ∈ n.keys ↔ ∃ t ∈ n.keyed, t.key = some k :=
  List.mem_filterMap

/-! ## Looking up -/

mutual
/-- What is found under a key is an element with that key. -/
theorem exists_of_find? {k : Nat} {n m : Node} (h : n.find? k = some m) :
    ∃ tag cs rs, m = .element tag cs rs ∧ tag.key = some k := by
  match n with
  | .text kind value => cases h
  | .element tag cs rs =>
    rw [find?] at h
    split at h
    · next hk => exact ⟨tag, cs, rs, (Option.some.inj h).symm, hk⟩
    · rcases Option.or_eq_some_iff.1 h with h | ⟨-, h⟩
      · exact exists_of_findIn? h
      · exact exists_of_findIn? h

theorem exists_of_findIn? {k : Nat} {ns : List Node} {m : Node} (h : findIn? k ns = some m) :
    ∃ tag cs rs, m = .element tag cs rs ∧ tag.key = some k := by
  match ns with
  | [] => cases h
  | n :: ns =>
    rcases Option.or_eq_some_iff.1 h with h | ⟨-, h⟩
    · exact exists_of_find? h
    · exact exists_of_findIn? h
end

mutual
/-- Looking up a key in a tree is looking it up among the tags. -/
theorem find?_tag (k : Nat) (n : Node) :
    (n.find? k).bind tag? = n.keyed.find? (·.key = some k) := by
  match n with
  | .text kind value => rfl
  | .element tag cs rs =>
    rw [find?, keyed]
    by_cases h : tag.key = some k
    · simp [h, tag?]
    · rw [if_neg h, List.find?_append, List.find?_append, ← findIn?_tag k cs, ← findIn?_tag k rs]
      have htag : (if tag.key.isSome then [tag] else []).find? (·.key = some k) = none := by
        split <;> simp [h]
      rw [htag, Option.none_or]
      cases hc : findIn? k cs with
      | none => rfl
      | some m =>
        obtain ⟨tag', cs', rs', rfl, -⟩ := exists_of_findIn? hc
        simp [tag?]

/-- Looking up a key in trees is looking it up among their tags. -/
theorem findIn?_tag (k : Nat) (ns : List Node) :
    (findIn? k ns).bind tag? = (keyedIn ns).find? (·.key = some k) := by
  match ns with
  | [] => rfl
  | n :: ns =>
    rw [findIn?, keyedIn, List.find?_append, ← find?_tag k n, ← findIn?_tag k ns]
    cases hc : n.find? k with
    | none => rfl
    | some m =>
      obtain ⟨tag', cs', rs', rfl, -⟩ := exists_of_find? hc
      simp [tag?]
end

theorem find?_isSome_iff {k : Nat} {n : Node} : (n.find? k).isSome = true ↔ k ∈ n.keys := by
  have htag := find?_tag k n
  rw [mem_keys_iff]
  cases h : n.find? k with
  | none =>
    rw [h, Option.bind_none, eq_comm, List.find?_eq_none] at htag
    simpa using htag
  | some m =>
    obtain ⟨tag, cs, rs, rfl, -⟩ := exists_of_find? h
    rw [h, Option.bind_some, tag?, eq_comm] at htag
    have hk := List.find?_some htag
    exact iff_of_true rfl ⟨tag, List.mem_of_find?_eq_some htag, by simpa using hk⟩

theorem findIn?_append (k : Nat) (ns ms : List Node) :
    findIn? k (ns ++ ms) = (findIn? k ns).or (findIn? k ms) := by
  induction ns with
  | nil => rfl
  | cons n ns ih => rw [List.cons_append, findIn?, ih, findIn?, Option.or_assoc]

theorem find?_eq_none {k : Nat} {n : Node} (h : k ∉ n.keys) : n.find? k = none := by
  rwa [← find?_isSome_iff, Option.not_isSome_iff_eq_none] at h

theorem findIn?_eq_none {k : Nat} {ns : List Node} (h : k ∉ keysIn ns) : findIn? k ns = none := by
  induction ns with
  | nil => rfl
  | cons n ns ih =>
    rw [keysIn_cons, List.mem_append, not_or] at h
    rw [findIn?, find?_eq_none h.1, ih h.2, Option.none_or]

/-! ## Changes at a key -/

@[simp] theorem modifyIn_append (k : Nat) (f : Node → Node) (ns ms : List Node) :
    modifyIn k f (ns ++ ms) = modifyIn k f ns ++ modifyIn k f ms := by
  induction ns with
  | nil => rfl
  | cons n ns ih => rw [List.cons_append, modifyIn, ih, modifyIn, List.cons_append]

theorem modify_of_ne {k : Nat} {tag : Tag} (h : tag.key ≠ some k) (f : Node → Node)
    (cs rs : List Node) : (element tag cs rs).modify k f =
      .element tag (modifyIn k f cs) (modifyIn k f rs) := by
  rw [modify, if_neg h]

mutual
/-- A key that is not in a tree changes nothing in it. -/
theorem modify_of_notMem {k : Nat} {f : Node → Node} {n : Node} (h : k ∉ n.keys) :
    n.modify k f = n := by
  match n with
  | .text kind value => rfl
  | .element tag cs rs =>
    rw [keys_element, List.mem_append, List.mem_append, not_or, not_or] at h
    obtain ⟨htag, hcs, hrs⟩ := h
    rw [modify_of_ne (by simpa [eq_comm] using htag), modifyIn_of_notMem hcs,
      modifyIn_of_notMem hrs]

theorem modifyIn_of_notMem {k : Nat} {f : Node → Node} {ns : List Node} (h : k ∉ keysIn ns) :
    modifyIn k f ns = ns := by
  match ns with
  | [] => rfl
  | n :: ns =>
    rw [keysIn_cons, List.mem_append, not_or] at h
    rw [modifyIn, modify_of_notMem h.1, modifyIn_of_notMem h.2]
end

theorem modifyIn_eq_map (k : Nat) (f : Node → Node) (ns : List Node) :
    modifyIn k f ns = ns.map (modify k f) := by
  induction ns with
  | nil => rfl
  | cons n ns ih => rw [modifyIn, ih, List.map_cons]

mutual
/-- What is in an element that is found in a tree is in the tree. -/
theorem keyed_sublist_of_find? {k : Nat} {n m : Node} (h : n.find? k = some m) :
    m.keyed.Sublist n.keyed := by
  match n with
  | .text kind value => cases h
  | .element tag cs rs =>
    rw [find?] at h
    split at h
    · rw [Option.some.inj h]
    · rw [keyed]
      refine List.Sublist.trans ?_ (List.sublist_append_right _ _)
      rcases Option.or_eq_some_iff.1 h with h | ⟨-, h⟩
      · exact (keyed_sublist_of_findIn? h).trans (List.sublist_append_left _ _)
      · exact (keyed_sublist_of_findIn? h).trans (List.sublist_append_right _ _)

theorem keyed_sublist_of_findIn? {k : Nat} {ns : List Node} {m : Node}
    (h : findIn? k ns = some m) : m.keyed.Sublist (keyedIn ns) := by
  match ns with
  | [] => cases h
  | n :: ns =>
    rw [keyedIn]
    rcases Option.or_eq_some_iff.1 h with h | ⟨-, h⟩
    · exact (keyed_sublist_of_find? h).trans (List.sublist_append_left _ _)
    · exact (keyed_sublist_of_findIn? h).trans (List.sublist_append_right _ _)
end

section Find

variable {k : Nat} {f : Node → Node}

mutual
/-- A change at a key that keeps the tag of the element is found under the key. -/
theorem find?_modify_self
    (hf : ∀ tag cs rs, ∃ cs' rs', f (.element tag cs rs) = .element tag cs' rs') (n : Node) :
    (n.modify k f).find? k = (n.find? k).map f := by
  match n with
  | .text kind value => rfl
  | .element tag cs rs =>
    rw [modify, find?]
    split
    · next hk =>
      obtain ⟨cs', rs', heq⟩ := hf tag cs rs
      rw [heq, find?, if_pos hk, Option.map_some, heq]
    · next hk =>
      rw [find?, if_neg hk, findIn?_modifyIn_self hf cs, findIn?_modifyIn_self hf rs]
      cases findIn? k cs <;> rfl

theorem findIn?_modifyIn_self
    (hf : ∀ tag cs rs, ∃ cs' rs', f (.element tag cs rs) = .element tag cs' rs')
    (ns : List Node) : findIn? k (modifyIn k f ns) = (findIn? k ns).map f := by
  match ns with
  | [] => rfl
  | n :: ns =>
    rw [modifyIn, findIn?, findIn?, find?_modify_self hf n, findIn?_modifyIn_self hf ns]
    cases n.find? k <;> rfl
end

variable {other : Nat}

mutual
/-- A change at one key that keeps what is found under another leaves what is found under the other
as it is, but for the change itself. -/
theorem find?_modify_of_ne (hne : other ≠ k)
    (hf : ∀ tag cs rs, tag.key = some k →
      (f (.element tag cs rs)).find? other = (element tag cs rs).find? other)
    {n : Node} (hn : n.keys.Nodup) :
    (n.modify k f).find? other = (n.find? other).map (modify k f) := by
  match n with
  | .text kind value => rfl
  | .element tag cs rs =>
    by_cases hk : tag.key = some k
    · rw [modify, if_pos hk, hf tag cs rs hk]
      cases hfind : (element tag cs rs).find? other with
      | none => rfl
      | some m =>
        -- the element that is found stands inside the one that is changed
        have hno : k ∉ m.keys := by
          rw [find?, if_neg (by rw [hk]; simpa using hne.symm)] at hfind
          rw [keys_element, hk] at hn
          obtain ⟨-, -, hdisj⟩ := List.nodup_append.1 hn
          intro hmem
          refine hdisj k (by simp) k ?_ rfl
          rw [List.mem_append]
          rcases Option.or_eq_some_iff.1 hfind with hfind | ⟨-, hfind⟩
          · exact .inl (((keyed_sublist_of_findIn? hfind).filterMap Tag.key).subset hmem)
          · exact .inr (((keyed_sublist_of_findIn? hfind).filterMap Tag.key).subset hmem)
        rw [Option.map_some, modify_of_notMem hno]
    · rw [keys_element] at hn
      obtain ⟨hcs, hrs, -⟩ := List.nodup_append.1 (List.nodup_append.1 hn).2.1
      rw [modify_of_ne hk, find?, find?]
      split
      · rw [Option.map_some, modify_of_ne hk]
      · rw [findIn?_modifyIn_of_ne hne hf hcs, findIn?_modifyIn_of_ne hne hf hrs]
        cases findIn? other cs <;> rfl

theorem findIn?_modifyIn_of_ne (hne : other ≠ k)
    (hf : ∀ tag cs rs, tag.key = some k →
      (f (.element tag cs rs)).find? other = (element tag cs rs).find? other)
    {ns : List Node} (hns : (keysIn ns).Nodup) :
    findIn? other (modifyIn k f ns) = (findIn? other ns).map (modify k f) := by
  match ns with
  | [] => rfl
  | n :: ns =>
    rw [keysIn_cons] at hns
    obtain ⟨hn, hns, -⟩ := List.nodup_append.1 hns
    rw [modifyIn, findIn?, findIn?, find?_modify_of_ne hne hf hn,
      findIn?_modifyIn_of_ne hne hf hns]
    cases n.find? other <;> rfl
end

end Find

/-- A tree with one node left open. -/
inductive Frame where
  | here
  | inChildren (tag : Tag) (before : List Node) (inner : Frame) (after removed : List Node)
  | inRemoved (tag : Tag) (children before : List Node) (inner : Frame) (after : List Node)

/-- The tree with a node for the open one. -/
def Frame.fill : Frame → Node → Node
  | .here, n => n
  | .inChildren tag before inner after removed, n =>
    .element tag (before ++ inner.fill n :: after) removed
  | .inRemoved tag children before inner after, n =>
    .element tag children (before ++ inner.fill n :: after)

/-- The keys of a tree are those around the open node and those of the node. -/
theorem Frame.exists_keys_fill (C : Frame) : ∃ ks, ∀ n, (C.fill n).keys.Perm (ks ++ n.keys) := by
  have hperm : ∀ (as bs : List Nat) {cs ks ms : List Nat}, cs.Perm (ks ++ ms) →
      (as ++ (cs ++ bs)).Perm (as ++ bs ++ ks ++ ms) := fun as bs cs ks ms h => by
    rw [List.perm_iff_count] at h ⊢
    intro k
    have hk := h k
    simp only [List.count_append] at hk ⊢
    omega
  induction C with
  | here => exact ⟨[], fun n => .refl _⟩
  | inChildren tag before inner after removed ih =>
    obtain ⟨ks, h⟩ := ih
    refine ⟨tag.key.toList ++ keysIn before ++ (keysIn after ++ keysIn removed) ++ ks, fun n => ?_⟩
    have hkeys := hperm (tag.key.toList ++ keysIn before) (keysIn after ++ keysIn removed) (h n)
    simpa [fill, keys_element] using hkeys
  | inRemoved tag children before inner after ih =>
    obtain ⟨ks, h⟩ := ih
    refine ⟨tag.key.toList ++ (keysIn children ++ keysIn before) ++ keysIn after ++ ks,
      fun n => ?_⟩
    have hkeys := hperm (tag.key.toList ++ (keysIn children ++ keysIn before)) (keysIn after) (h n)
    simpa [fill, keys_element] using hkeys

mutual
/-- Where the keys are distinct, a change made at a key leaves the tree around the element as it
is. -/
theorem exists_frame {k : Nat} {n m : Node} (hn : n.keys.Nodup) (h : n.find? k = some m) :
    ∃ C : Frame, C.fill m = n ∧ ∀ f, n.modify k f = C.fill (f m) := by
  match n with
  | .text kind value => cases h
  | .element tag cs rs =>
    rw [keys_element] at hn
    obtain ⟨hcs, hrs, hdisj⟩ := List.nodup_append.1 (List.nodup_append.1 hn).2.1
    rw [find?] at h
    split at h
    · next hk =>
      obtain rfl := Option.some.inj h
      exact ⟨.here, rfl, fun f => by rw [modify, if_pos hk, Frame.fill]⟩
    · next hk =>
      rcases Option.or_eq_some_iff.1 h with h | ⟨hnone, h⟩
      · obtain ⟨before, C, after, hfill, hmodify, hmem⟩ := exists_frameIn hcs h
        refine ⟨.inChildren tag before C after rs, by rw [Frame.fill, hfill], fun f => ?_⟩
        have hno : k ∉ keysIn rs := fun hk' => hdisj k hmem k hk' rfl
        rw [modify_of_ne hk, hmodify, modifyIn_of_notMem hno, Frame.fill]
      · obtain ⟨before, C, after, hfill, hmodify, hmem⟩ := exists_frameIn hrs h
        refine ⟨.inRemoved tag cs before C after, by rw [Frame.fill, hfill], fun f => ?_⟩
        have hno : k ∉ keysIn cs := fun hk' => hdisj k hk' k hmem rfl
        rw [modify_of_ne hk, hmodify, modifyIn_of_notMem hno, Frame.fill]

theorem exists_frameIn {k : Nat} {ns : List Node} {m : Node} (hns : (keysIn ns).Nodup)
    (h : findIn? k ns = some m) :
    ∃ before C after, before ++ Frame.fill C m :: after = ns ∧
      (∀ f, modifyIn k f ns = before ++ C.fill (f m) :: after) ∧ k ∈ keysIn ns := by
  match ns with
  | [] => cases h
  | n :: ns =>
    rw [keysIn_cons] at hns
    obtain ⟨hn, hns, hdisj⟩ := List.nodup_append.1 hns
    rw [findIn?] at h
    rcases Option.or_eq_some_iff.1 h with h | ⟨hnone, h⟩
    · obtain ⟨C, hfill, hmodify⟩ := exists_frame hn h
      have hk : k ∈ n.keys := find?_isSome_iff.1 (by rw [h]; rfl)
      have hno : k ∉ keysIn ns := fun hk' => hdisj k hk k hk' rfl
      refine ⟨[], C, ns, by rw [hfill, List.nil_append], fun f => ?_, ?_⟩
      · rw [modifyIn, hmodify, modifyIn_of_notMem hno, List.nil_append]
      · rw [keysIn_cons]
        exact List.mem_append_left _ hk
    · obtain ⟨before, C, after, hfill, hmodify, hmem⟩ := exists_frameIn hns h
      have hno : k ∉ n.keys := by
        rw [← find?_isSome_iff, hnone]
        simp
      refine ⟨n :: before, C, after, by rw [List.cons_append, hfill], fun f => ?_, ?_⟩
      · rw [modifyIn, hmodify, modify_of_notMem hno, List.cons_append]
      · rw [keysIn_cons]
        exact List.mem_append_right _ hmem
end

/-! ## Rewriting that keeps the elements with keys -/

end Node

/-- What an element with a key is told apart by, whatever happens to its other attributes. -/
def Tag.mark (t : Tag) : Option Nat × String := (t.key, t.name)

namespace Node

mutual
/-- How deep elements with keys nest; what is in an element without a key does not count. -/
def depth : Node → Nat
  | .text _ _ => 0
  | .element tag children removed =>
    if tag.key.isSome then max (depthIn children) (depthIn removed) + 1 else 0

/-- How deep elements with keys nest in trees. -/
def depthIn : List Node → Nat
  | [] => 0
  | n :: ns => max n.depth (depthIn ns)
end

mutual
theorem depth_le_height (n : Node) : n.depth ≤ n.height := by
  match n with
  | .text kind value => exact Nat.le_refl 0
  | .element tag cs rs =>
    have hcs := depthIn_le_heightIn cs
    have hrs := depthIn_le_heightIn rs
    rw [depth, height]
    split <;> omega

theorem depthIn_le_heightIn (ns : List Node) : depthIn ns ≤ heightIn ns := by
  match ns with
  | [] => exact Nat.le_refl 0
  | n :: ns =>
    have hn := depth_le_height n
    have hns := depthIn_le_heightIn ns
    rw [depthIn, heightIn]
    omega
end

theorem depthIn_append (ns ms : List Node) :
    depthIn (ns ++ ms) = max (depthIn ns) (depthIn ms) := by
  induction ns with
  | nil => simp [depthIn]
  | cons n ns ih =>
    rw [List.cons_append, depthIn, ih, depthIn]
    omega

/-- A tree and what rewriting has made of it: an element with the same key and name, and in it the
same elements with keys, nested no deeper. -/
structure Gentle (n n' : Node) : Prop where
  mark : n'.tag?.map Tag.mark = n.tag?.map Tag.mark
  marks : (n'.keyed.map Tag.mark).Perm (n.keyed.map Tag.mark)
  depth_le : n'.depth ≤ n.depth

/-- Trees that are rewritten one by one. -/
def GentleIn (ns ns' : List Node) : Prop := List.Forall₂ Gentle ns ns'

namespace Gentle

theorem refl (n : Node) : Gentle n n := ⟨rfl, .refl _, Nat.le_refl _⟩

theorem trans {a b c : Node} (h : Gentle a b) (h' : Gentle b c) : Gentle a c :=
  ⟨h'.mark.trans h.mark, h'.marks.trans h.marks, Nat.le_trans h'.depth_le h.depth_le⟩

theorem keys {n n' : Node} (h : Gentle n n') : n'.keys.Perm n.keys := by
  have hmark : ∀ ts : List Tag, ts.filterMap Tag.key = (ts.map Tag.mark).filterMap Prod.fst := by
    intro ts
    rw [List.filterMap_map]
    rfl
  rw [Node.keys, Node.keys, hmark, hmark]
  exact h.marks.filterMap _

/-- Rewriting an element gives an element. -/
theorem exists_element {tag : Tag} {cs rs : List Node} {n : Node}
    (h : Gentle (.element tag cs rs) n) :
    ∃ tag' cs' rs', n = .element tag' cs' rs' ∧ tag'.mark = tag.mark := by
  cases n with
  | text kind value => cases h.mark
  | element tag' cs' rs' => exact ⟨tag', cs', rs', rfl, Option.some.inj h.mark⟩

end Gentle

namespace GentleIn

theorem refl (ns : List Node) : GentleIn ns ns := List.forall₂_same.2 fun n _ => .refl n

theorem marks {ns ns' : List Node} (h : GentleIn ns ns') :
    ((keyedIn ns').map Tag.mark).Perm ((keyedIn ns).map Tag.mark) := by
  induction h with
  | nil => exact .refl _
  | cons h _ ih =>
    rw [keyedIn, keyedIn, List.map_append, List.map_append]
    exact h.marks.append ih

theorem depth_le {ns ns' : List Node} (h : GentleIn ns ns') : depthIn ns' ≤ depthIn ns := by
  induction h with
  | nil => exact Nat.le_refl _
  | cons h _ ih =>
    have := h.depth_le
    rw [depthIn, depthIn]
    omega

end GentleIn

/-- An element whose contents are rewritten, and perhaps moved among its removed nodes. -/
theorem gentle_element {tag tag' : Tag} {cs rs cs' rs' : List Node} (htag : tag'.mark = tag.mark)
    (hmarks : ((keyedIn (cs' ++ rs')).map Tag.mark).Perm ((keyedIn (cs ++ rs)).map Tag.mark))
    (hdepth : depthIn (cs' ++ rs') ≤ depthIn (cs ++ rs)) :
    Gentle (.element tag cs rs) (.element tag' cs' rs') := by
  have hkey : tag'.key = tag.key := (Prod.mk.inj htag).1
  rw [keyedIn_append, keyedIn_append] at hmarks
  rw [depthIn_append, depthIn_append] at hdepth
  refine ⟨congrArg some htag, ?_, ?_⟩
  · rw [keyed, keyed, hkey]
    split
    · rw [List.singleton_append, List.singleton_append, List.map_cons, List.map_cons, htag]
      exact hmarks.cons _
    · exact hmarks
  · rw [depth, depth, hkey]
    split <;> omega

/-- An element whose contents are rewritten in place. -/
theorem gentle_of_gentleIn {tag tag' : Tag} {cs rs cs' rs' : List Node}
    (htag : tag'.mark = tag.mark) (hcs : GentleIn cs cs') (hrs : GentleIn rs rs') :
    Gentle (.element tag cs rs) (.element tag' cs' rs') := by
  refine gentle_element htag ?_ ?_
  · rw [keyedIn_append, keyedIn_append, List.map_append, List.map_append]
    exact hcs.marks.append hrs.marks
  · have := hcs.depth_le
    have := hrs.depth_le
    rw [depthIn_append, depthIn_append]
    omega

/-- A change at one place of a list. -/
theorem forall₂_modify {R : Node → Node → Prop} (hR : ∀ n, R n n) {f : Node → Node}
    {ns : List Node} {i : Nat} (h : ∀ n, ns[i]? = some n → R n (f n)) :
    List.Forall₂ R ns (ns.modify i f) := by
  induction ns generalizing i with
  | nil => simp
  | cons n ns ih =>
    cases i with
    | zero =>
      rw [List.modify_zero_cons]
      exact .cons (h n rfl) (List.forall₂_same.2 fun m _ => hR m)
    | succ i =>
      rw [List.modify_succ_cons]
      exact .cons (hR n) (ih fun m hm => h m hm)

/-! ## New contents -/

/-- New nodes have no keys in them. -/
def Keyless (ns : List Node) : Prop := keyedIn ns = []

theorem depthIn_of_keyless {ns : List Node} (h : Keyless ns) : depthIn ns = 0 := by
  induction ns with
  | nil => rfl
  | cons n ns ih =>
    obtain ⟨hn, hns⟩ := List.append_eq_nil_iff.1 h
    rw [depthIn, ih hns]
    cases n with
    | text kind value => rfl
    | element tag cs rs =>
      rw [keyed] at hn
      have htag : tag.key.isSome = false := by
        cases hk : tag.key with
        | none => rfl
        | some k => simp [hk] at hn
      simp [depth, htag]

theorem gentle_prepend {n : Node} (h : Keyless [n]) (m : Node) : Gentle m (prepend n m) := by
  cases m with
  | text kind value => exact .refl _
  | element tag cs rs =>
    refine gentle_element rfl ?_ ?_
    · rw [List.cons_append, ← List.singleton_append, keyedIn_append, show keyedIn [n] = [] from h]
      exact .refl _
    · rw [List.cons_append, ← List.singleton_append, depthIn_append, depthIn_of_keyless h]
      omega

theorem gentle_replaceChildren {ns : List Node} (h : Keyless ns) (m : Node) :
    Gentle m (replaceChildren ns m) := by
  cases m with
  | text kind value => exact .refl _
  | element tag cs rs =>
    refine gentle_element rfl ?_ ?_
    · rw [keyedIn_append, show keyedIn ns = [] from h, List.nil_append, keyedIn_append,
        keyedIn_append, List.map_append, List.map_append]
      exact List.perm_append_comm
    · rw [depthIn_append, depthIn_append, depthIn_append, depthIn_of_keyless h]
      omega

end Node

theorem Tag.key_make (name : String) (attrs : List (String × String)) :
    (Tag.make name attrs).key = none :=
  List.foldlRecOn (motive := fun t : Tag => t.key = none) attrs _ rfl fun _ h _ _ => h

namespace Node

theorem keyless_new {name : String} {attrs : List (String × String)} {cs : List Node}
    (h : Keyless cs) : Keyless [.new name attrs cs] := by
  rw [Keyless, keyedIn, keyedIn, new, keyed, show keyedIn cs = [] from h, Tag.key_make]
  rfl

end Node

namespace Markup

/-- What all nodes that markup writes have: texts have it, and so has every element without a key in
which all nodes have it and from which nothing has been removed. -/
structure Inherent (P : Node → Prop) : Prop where
  text : ∀ kind value, P (.text kind value)
  element : ∀ tag cs, tag.key = none → (∀ n ∈ cs, P n) → P (.element tag cs [])

namespace Growth

/-- All nodes of a tree that is put together have a property. -/
structure All (P : Node → Prop) (g : Growth) : Prop where
  opened : ∀ o ∈ g.opened, o.tag.key = none ∧ ∀ n ∈ o.nodes, P n
  outside : ∀ n ∈ g.outside, P n

variable {P : Node → Prop} {g : Growth}

theorem All.push (h : g.All P) {n : Node} (hn : P n) : (g.push n).All P := by
  unfold Growth.push
  split
  · exact ⟨h.opened, List.forall_mem_cons.2 ⟨hn, h.outside⟩⟩
  · next o rest hg =>
    have hopened := h.opened
    rw [hg, List.forall_mem_cons] at hopened
    obtain ⟨⟨hkey, hnodes⟩, hrest⟩ := hopened
    exact ⟨List.forall_mem_cons.2 ⟨⟨hkey, List.forall_mem_cons.2 ⟨hn, hnodes⟩⟩, hrest⟩, h.outside⟩

section Inherent

variable (hP : Inherent P)
include hP

theorem All.settle (h : g.All P) (kind : TextKind) : (g.settle kind).All P := by
  unfold Growth.settle
  split
  · exact h
  · exact All.push (g := { g with pending := [] }) ⟨h.opened, h.outside⟩ (hP.text _ _)

theorem All.close (h : g.All P) : g.close.All P := by
  unfold Growth.close
  split
  · exact h
  · next o rest hg =>
    have hopened := h.opened
    rw [hg, List.forall_mem_cons] at hopened
    obtain ⟨⟨hkey, hnodes⟩, hrest⟩ := hopened
    exact All.push (g := { g with opened := rest }) ⟨hrest, h.outside⟩
      (hP.element _ _ hkey fun n hn => hnodes n (List.mem_reverse.1 hn))

theorem All.closeMany (h : g.All P) (n : Nat) : (closeMany n g).All P := by
  induction n generalizing g with
  | zero => exact h
  | succ n ih => exact ih (h.close hP)

theorem All.startTag (h : g.All P) (name : String) (attrs : List (String × String))
    (closed : Bool) : (g.startTag name attrs closed).All P := by
  have hsettled := h.settle hP .plain
  have hopen : All P { g.settle .plain with
      opened := ⟨Tag.make name attrs, []⟩ :: (g.settle .plain).opened } :=
    ⟨List.forall_mem_cons.2 ⟨⟨Tag.key_make name attrs, fun n hn => (List.not_mem_nil hn).elim⟩,
      hsettled.opened⟩, hsettled.outside⟩
  have hclosed := hopen.close hP
  unfold Growth.startTag
  dsimp only
  split
  · exact hclosed
  · split
    · exact ⟨hclosed.opened, hclosed.outside⟩
    · exact hopen

theorem All.endTag (h : g.All P) (name : String) : (g.endTag name).All P := by
  unfold Growth.endTag
  split
  · exact ⟨h.opened, h.outside⟩
  · unfold closeNamed
    split
    · exact (h.settle hP .plain).closeMany hP _
    · exact h.settle hP .plain

theorem All.add (h : g.All P) (p : Piece) : (g.add p).All P := by
  cases p with
  | text cs => exact ⟨h.opened, h.outside⟩
  | other kind cs =>
    have hsettled := h.settle hP .plain
    exact All.settle (g := { g.settle .plain with pending := [cs] }) hP
      ⟨hsettled.opened, hsettled.outside⟩ kind
  | opening name attrs closed => exact h.startTag hP name attrs closed
  | closing name => exact h.endTag hP name

end Inherent

end Growth

/-- What is inherent in markup holds of all nodes that it writes. -/
theorem forall_of_parse? {P : Node → Prop} (hP : Inherent P) {markup : List Char}
    {nodes : List Node} (h : parse? markup = .ok nodes) : ∀ n ∈ nodes, P n := by
  obtain ⟨ps, -, rfl⟩ := map_ok_iff.1 h
  have hgrown : (ps.foldl Growth.add .start).All P :=
    List.foldlRecOn ps _ ⟨by simp [Growth.start], by simp [Growth.start]⟩ fun g hg p _ =>
      hg.add hP p
  exact fun n hn => ((hgrown.settle hP .plain).closeMany hP _).outside n (List.mem_reverse.1 hn)

end Markup

namespace Node

theorem inherent_keyless : Markup.Inherent fun n => n.keyed = [] where
  text _ _ := rfl
  element tag cs hkey hcs := by
    rw [keyed, hkey, keyedIn_eq_nil_iff.2 hcs]
    rfl

/-- Nodes made from markup have no keys. -/
theorem keyless_parse (markup : List Char) : Keyless (Markup.parse markup) := by
  unfold Markup.parse
  cases h : Markup.parse? markup with
  | error e => rfl
  | ok nodes => exact keyedIn_eq_nil_iff.2 (Markup.forall_of_parse? inherent_keyless h)

end Node

end Concordance
