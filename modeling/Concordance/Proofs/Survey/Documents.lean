import Concordance.Proofs.Survey.Sites
import Mathlib.Data.List.Range

/-!
# Documents as they are read

A document that has just been read has a key on every element, no key twice, and nothing removed
(`asRead_withKeys`), whichever reader has given its nodes, as long as these are new
(`Markup.Reader.Fresh`). Its sites are in order for a survey when headings and rows shelter none
(`Sheltered`) and when the rows of every well-formed table of methods can be got at (`Accessible`):
they stand in no heading and in no header list of a clause inside the table, and, unless listings
are asked for and the methods of tables are left out, in no table of methods inside it. Such a
document is calm (`calmIn_of_accessible`).
-/

namespace Concordance

namespace Node

/-- What has been removed from an element. -/
def removed : Node → List Node
  | .text _ _ => []
  | .element _ _ rs => rs

mutual
/-- The nodes inside a node, in reading order. -/
def inside : Node → List Node
  | .text _ _ => []
  | .element _ children _ => insideIn children

/-- Trees and all nodes inside them, in reading order. -/
def insideIn : List Node → List Node
  | [] => []
  | n :: ns => n :: (n.inside ++ insideIn ns)
end

theorem insideIn_cons (n : Node) (ns : List Node) :
    insideIn (n :: ns) = (n :: n.inside) ++ insideIn ns := rfl

theorem mem_insideIn_iff {m : Node} {ns : List Node} :
    m ∈ insideIn ns ↔ ∃ n ∈ ns, m ∈ n :: n.inside := by
  induction ns with
  | nil => simp [insideIn]
  | cons n ns ih => rw [insideIn_cons, List.mem_append, ih, List.exists_mem_cons_iff]

/-- What is inside a child of a node is inside the node. -/
theorem mem_inside_of_mem_children {n c m : Node} (hc : c ∈ n.children) (hm : m ∈ c :: c.inside) :
    m ∈ n.inside := by
  cases n with
  | text kind value => cases hc
  | element tag cs rs => exact mem_insideIn_iff.2 ⟨c, hc, hm⟩

mutual
/-- Whether two nodes are the same. -/
def decEq : (n m : Node) → Decidable (n = m)
  | .text kind value, .text kind' value' =>
    decidable_of_iff (kind = kind' ∧ value = value') (by rw [text.injEq])
  | .element tag cs rs, .element tag' cs' rs' =>
    letI := decEqIn cs cs'
    letI := decEqIn rs rs'
    decidable_of_iff (tag = tag' ∧ cs = cs' ∧ rs = rs') (by rw [element.injEq])
  | .text _ _, .element _ _ _ => .isFalse nofun
  | .element _ _ _, .text _ _ => .isFalse nofun

/-- Whether two lists of nodes are the same. -/
def decEqIn : (ns ms : List Node) → Decidable (ns = ms)
  | [], [] => .isTrue rfl
  | n :: ns, m :: ms =>
    letI := decEq n m
    letI := decEqIn ns ms
    decidable_of_iff (n = m ∧ ns = ms) (by rw [List.cons.injEq])
  | [], _ :: _ => .isFalse nofun
  | _ :: _, [] => .isFalse nofun
end

instance (n : Node) (ns : List Node) : Decidable (n ∈ ns) :=
  letI : DecidableEq Node := decEq
  @List.instDecidableMemOfLawfulBEq Node instBEqOfDecidableEq inferInstance n ns

/-- A document as it is read. -/
structure AsRead (root : Node) : Prop where
  keyed : ∀ n ∈ root :: root.inside, n.isElement = true → n.key?.isSome = true
  unremoved : ∀ n ∈ root :: root.inside, n.removed = []
  distinct : root.keys.Nodup

/-- No sites stand inside headings or rows. -/
def Sheltered (listings : Bool) (root : Node) : Prop :=
  ∀ n ∈ root.inside, n.isNamed "h1" = true ∨ n.isNamed "tr" = true →
    ∀ m ∈ n.inside, isSite listings m.tag.name = false

instance (listings : Bool) (root : Node) : Decidable (Sheltered listings root) :=
  inferInstanceAs (Decidable (∀ n ∈ root.inside, _ → _))

end Node

namespace MethodTable

/-- The rows of a table element can be got at: inside it, they stand in no heading and in no header
list of a clause, and in no table of methods where methods are read. -/
def RowsFree (listings : Bool) (table : Node) : Prop :=
  ∀ m ∈ table.inside,
    (Clause.names.contains m.tag.name = true → ∀ c ∈ m.children,
      c.isNamed "h1" = true ∨ Clause.isHeaderList c = true → body table ∉ c.inside) ∧
    (listings = false → m.tag.name = elementName → m.tag.filled? "type" = some methodsType →
      body table ∉ m.inside)

instance (listings : Bool) (table : Node) : Decidable (RowsFree listings table) :=
  inferInstanceAs (Decidable (∀ m ∈ table.inside, _ ∧ _))

end MethodTable

/-- The rows of every well-formed table of methods can be got at. -/
def Node.Accessible (listings : Bool) (root : Node) : Prop :=
  ∀ n ∈ root.inside, n.tag.name = MethodTable.elementName →
    ∀ found ∈ MethodTable.wellFormed? n, MethodTable.RowsFree listings found.2

instance (listings : Bool) (root : Node) : Decidable (root.Accessible listings) :=
  inferInstanceAs (Decidable (∀ n ∈ root.inside, _ → _))

/-! ## The way to the rows -/

namespace MethodTable

open Concordance.Node

section Way

variable {P : Tag → Node → Prop} {name : String}

mutual
/-- The first element of a name below a node is an element of that name inside the node. -/
theorem mem_inside_of_firstNamed? {n b : Node} (h : firstNamed? name n = some b) :
    b ∈ n.inside ∧ b.isNamed name = true := by
  match n with
  | .text kind value => cases h
  | .element tag cs rs => exact mem_insideIn_of_firstNamedIn? h

theorem mem_insideIn_of_firstNamedIn? {ns : List Node} {b : Node}
    (h : firstNamedIn? name ns = some b) : b ∈ insideIn ns ∧ b.isNamed name = true := by
  match ns with
  | [] => cases h
  | n :: ns =>
    rw [firstNamedIn?] at h
    rw [insideIn_cons, List.mem_append, List.mem_cons]
    split at h
    · next hname =>
      obtain rfl := Option.some.inj h
      exact ⟨.inl (.inl rfl), hname⟩
    · rcases Option.or_eq_some_iff.1 h with h | ⟨-, h⟩
      · exact (mem_inside_of_firstNamed? h).imp_left fun hb => .inl (.inr hb)
      · exact (mem_insideIn_of_firstNamedIn? h).imp_left .inr
end

/-- Where there is no element of a name, there is no way to one. -/
theorem clearIn_of_none {parent : Tag} {ns : List Node} (h : firstNamedIn? name ns = none) :
    ClearIn P name parent ns := by
  induction ns with
  | nil => trivial
  | cons n ns ih =>
    rw [firstNamedIn?] at h
    split at h
    · cases h
    · next hname =>
      obtain ⟨hn, hns⟩ := Option.or_eq_none_iff.1 h
      rw [ClearIn, if_neg hname, hn, if_neg (by simp)]
      exact ih hns

mutual
/-- The nodes on the way to the first element of a name are those that hold it. -/
theorem clear_of_firstNamed? {n b : Node} (h : firstNamed? name n = some b)
    (hP : ∀ m ∈ n :: n.inside, ∀ c ∈ m.children, b ∈ c :: c.inside → P m.tag c) :
    Clear P name n := by
  match n with
  | .text kind value => trivial
  | .element tag cs rs =>
    rw [List.forall_mem_cons] at hP
    exact clearIn_of_firstNamedIn? h hP.1 hP.2

theorem clearIn_of_firstNamedIn? {parent : Tag} {ns : List Node} {b : Node}
    (h : firstNamedIn? name ns = some b) (hparent : ∀ c ∈ ns, b ∈ c :: c.inside → P parent c)
    (hP : ∀ m ∈ insideIn ns, ∀ c ∈ m.children, b ∈ c :: c.inside → P m.tag c) :
    ClearIn P name parent ns := by
  match ns with
  | [] => trivial
  | n :: ns =>
    rw [firstNamedIn?] at h
    rw [List.forall_mem_cons] at hparent
    rw [insideIn_cons, List.forall_mem_append] at hP
    rw [ClearIn]
    split at h
    · next hname =>
      obtain rfl := Option.some.inj h
      rw [if_pos hname]
      exact hparent.1 List.mem_cons_self
    · next hname =>
      rw [if_neg hname]
      rcases Option.or_eq_some_iff.1 h with h | ⟨hnone, h⟩
      · rw [if_pos (by rw [h]; rfl)]
        exact ⟨hparent.1 (List.mem_cons_of_mem n (mem_inside_of_firstNamed? h).1),
          clear_of_firstNamed? h hP.1⟩
      · rw [if_neg (by rw [hnone]; simp)]
        exact clearIn_of_firstNamedIn? h hparent.2 hP.2
end

end Way

theorem isNamed_of_wellFormed? {n table : Node} {owner : String}
    (h : wellFormed? n = some (owner, table)) : table.isNamed "table" = true := by
  unfold wellFormed? at h
  split at h
  · obtain ⟨⟨table', rest⟩, hfound, h⟩ := Option.bind_eq_some_iff.1 h
    obtain ⟨owner', -, heq⟩ := Option.map_eq_some_iff.1 h
    obtain ⟨-, -, -, hname⟩ := fromTable?_eq_some_iff.1 hfound
    exact (Prod.mk.inj heq).2 ▸ hname
  · cases h

/-- A table element whose rows can be got at is open. -/
theorem RowsFree.isOpen {listings : Bool} {table : Node} (hname : table.isNamed "table" = true)
    (h : RowsFree listings table) : IsOpen listings table := by
  cases table with
  | text kind value => trivial
  | element tag cs rs =>
    simp only [isNamed, decide_eq_true_eq] at hname
    cases hfirst : firstNamed? "tbody" (.element tag cs rs) with
    | none => exact clearIn_of_none hfirst
    | some b =>
      have hbody : body (.element tag cs rs) = b := by rw [body, hfirst, Option.getD_some]
      have hb := (mem_inside_of_firstNamed? hfirst).2
      refine clear_of_firstNamed? hfirst (List.forall_mem_cons.2 ⟨fun c hc hbc => ?_, ?_⟩)
      · constructor
        · intro hclause
          rw [tag_element, hname] at hclause
          exact absurd hclause (by decide)
        · intro _ htable
          rw [tag_element, hname] at htable
          exact absurd htable (by decide)
      · intro m hm c hc hbc
        obtain ⟨hclause, htable⟩ := hbody ▸ h m hm
        constructor
        · intro hm
          have hheld : ∀ p : Node → Bool, p b = false →
              (p c = true → b ∉ c.inside) → p c = false := by
            intro p hpb hp
            by_contra hpc
            rw [Bool.not_eq_false] at hpc
            rcases List.mem_cons.1 hbc with rfl | hbc
            · rw [hpb] at hpc
              cases hpc
            · exact hp hpc hbc
          have hother : ∀ other, other ≠ "tbody" → b.isNamed other = false := fun other hne =>
            isNamed_of_ne hb hne.symm
          exact ⟨hheld (·.isNamed "h1") (hother "h1" (by decide))
              fun hc' => hclause hm c hc (.inl hc'),
            hheld Clause.isHeaderList (by rw [Clause.isHeaderList, hother "dl" (by decide)]; rfl)
              fun hc' => hclause hm c hc (.inr hc')⟩
        · intro hlistings hname htype
          exact htable hlistings hname htype (mem_inside_of_mem_children hc hbc)

end MethodTable

/-! ## Documents in order -/

namespace Node

variable {listings : Bool}

mutual
/-- Where nothing has been removed, the elements with keys are the node and nodes inside it. -/
theorem exists_of_mem_keyed {n : Node} {t : Tag} (h : ∀ m ∈ n :: n.inside, m.removed = [])
    (ht : t ∈ n.keyed) : ∃ m ∈ n :: n.inside, m.tag = t := by
  match n with
  | .text kind value => cases ht
  | .element tag cs rs =>
    rw [List.forall_mem_cons] at h
    obtain rfl : rs = [] := h.1
    rw [keyed, List.mem_append] at ht
    rcases ht with ht | ht
    · split at ht
      · exact ⟨_, List.mem_cons_self, (List.mem_singleton.1 ht).symm⟩
      · cases ht
    · rw [show keyedIn [] = [] from rfl, List.append_nil] at ht
      obtain ⟨m, hm, htag⟩ := exists_of_mem_keyedIn h.2 ht
      exact ⟨m, List.mem_cons_of_mem _ hm, htag⟩

theorem exists_of_mem_keyedIn {ns : List Node} {t : Tag} (h : ∀ m ∈ insideIn ns, m.removed = [])
    (ht : t ∈ keyedIn ns) : ∃ m ∈ insideIn ns, m.tag = t := by
  match ns with
  | [] => cases ht
  | n :: ns =>
    rw [insideIn_cons, List.forall_mem_append] at h
    rcases List.mem_append.1 ht with ht | ht
    · obtain ⟨m, hm, htag⟩ := exists_of_mem_keyed h.1 ht
      exact ⟨m, List.mem_append_left _ hm, htag⟩
    · obtain ⟨m, hm, htag⟩ := exists_of_mem_keyedIn h.2 ht
      exact ⟨m, List.mem_append_right (n :: n.inside) hm, htag⟩
end

/-- What makes a document calm, said of one node. -/
structure Tidy (listings : Bool) (n : Node) : Prop where
  removed_eq : n.removed = []
  quiet : n.isNamed "h1" = true ∨ n.isNamed "tr" = true →
    ∀ m ∈ n.inside, isSite listings m.tag.name = false
  isOpen : n.tag.name = MethodTable.elementName → ∀ owner table,
    MethodTable.wellFormed? n = some (owner, table) → MethodTable.IsOpen listings table

mutual
theorem calm_of_tidy {n : Node} (h : ∀ m ∈ n :: n.inside, Tidy listings m) : Calm listings n := by
  match n with
  | .text kind value => trivial
  | .element tag cs rs =>
    rw [List.forall_mem_cons] at h
    obtain ⟨htidy, hinside⟩ := h
    obtain rfl : rs = [] := htidy.removed_eq
    refine fun hkey => ⟨by simp [QuietIn, keyedIn], fun hname t ht => ?_, htidy.isOpen,
      calmIn_of_tidy hinside⟩
    obtain ⟨m, hm, rfl⟩ := exists_of_mem_keyedIn (fun m hm => (hinside m hm).removed_eq) ht
    exact htidy.quiet (by simpa [isNamed] using hname) m hm

theorem calmIn_of_tidy {ns : List Node} (h : ∀ m ∈ insideIn ns, Tidy listings m) :
    CalmIn listings ns := by
  match ns with
  | [] => trivial
  | n :: ns =>
    rw [insideIn_cons, List.forall_mem_append] at h
    exact ⟨calm_of_tidy h.1, calmIn_of_tidy h.2⟩
end

/-- A document whose headings and rows shelter no sites and whose rows can be got at is calm. -/
theorem calmIn_of_accessible {root : Node} (hread : AsRead root)
    (hsheltered : Sheltered listings root) (haccess : Accessible listings root) :
    CalmIn listings root.children := by
  cases root with
  | text kind value => trivial
  | element tag cs rs =>
    refine calmIn_of_tidy fun m hm => ⟨hread.unremoved m (List.mem_cons_of_mem _ hm),
      hsheltered m hm, fun hname owner table hwell => ?_⟩
    exact (haccess m hm hname _ hwell).isOpen (MethodTable.isNamed_of_wellFormed? hwell)

/-! ## Reading a document -/

mutual
theorem assignKeys_spec (next : Nat) {n : Node} (h : ∀ m ∈ n :: n.inside, m.removed = []) :
    next ≤ (assignKeys next n).2 ∧
    (assignKeys next n).1.keys = List.range' next ((assignKeys next n).2 - next) ∧
    ∀ m ∈ (assignKeys next n).1 :: (assignKeys next n).1.inside,
      (m.isElement = true → m.key?.isSome = true) ∧ m.removed = [] := by
  match n with
  | .text kind value => exact ⟨Nat.le_refl _, by simp [assignKeys, keys, keyed], by
      simp [assignKeys, inside, isElement, removed]⟩
  | .element tag cs rs =>
    rw [List.forall_mem_cons] at h
    obtain rfl : rs = [] := h.1
    obtain ⟨hle, hkeys, hinside⟩ := assignAllKeys_spec (next + 1) h.2
    refine ⟨Nat.le_trans (Nat.le_succ next) hle, ?_, ?_⟩
    · rw [assignKeys]
      dsimp only
      rw [keys_element, hkeys, keysIn_nil, List.append_nil]
      have hcount : (assignAllKeys (next + 1) cs).2 - next =
          ((assignAllKeys (next + 1) cs).2 - (next + 1)) + 1 := by omega
      rw [hcount, List.range'_succ]
      rfl
    · exact List.forall_mem_cons.2 ⟨⟨fun _ => rfl, rfl⟩, hinside⟩

theorem assignAllKeys_spec (next : Nat) {ns : List Node} (h : ∀ m ∈ insideIn ns, m.removed = []) :
    next ≤ (assignAllKeys next ns).2 ∧
    keysIn (assignAllKeys next ns).1 = List.range' next ((assignAllKeys next ns).2 - next) ∧
    ∀ m ∈ insideIn (assignAllKeys next ns).1,
      (m.isElement = true → m.key?.isSome = true) ∧ m.removed = [] := by
  match ns with
  | [] => exact ⟨Nat.le_refl _, by simp [assignAllKeys], by simp [assignAllKeys, insideIn]⟩
  | n :: ns =>
    rw [insideIn_cons, List.forall_mem_append] at h
    obtain ⟨hle, hkeys, hinside⟩ := assignKeys_spec next h.1
    obtain ⟨hle', hkeys', hinside'⟩ := assignAllKeys_spec (assignKeys next n).2 h.2
    refine ⟨Nat.le_trans hle hle', ?_, ?_⟩
    · rw [assignAllKeys]
      dsimp only
      have hcount : (assignAllKeys (assignKeys next n).2 ns).2 - next =
          ((assignKeys next n).2 - next) +
            ((assignAllKeys (assignKeys next n).2 ns).2 - (assignKeys next n).2) := by omega
      rw [keysIn_cons, hkeys, hkeys', hcount, ← List.range'_append_1]
      congr 2
      omega
    · rw [assignAllKeys]
      exact List.forall_mem_append.2 ⟨hinside, hinside'⟩
end

/-- A document that gets its keys, nothing having been removed from it, is as it is read. -/
theorem asRead_withKeys {n : Node} (h : ∀ m ∈ n :: n.inside, m.removed = []) :
    AsRead n.withKeys := by
  obtain ⟨-, hkeys, hall⟩ := assignKeys_spec 0 h
  exact ⟨fun m hm => (hall m hm).1, fun m hm => (hall m hm).2, by
    rw [withKeys, hkeys]
    exact List.nodup_range'⟩

theorem inherent_unremoved : Markup.Inherent fun n => ∀ m ∈ n :: n.inside, m.removed = [] where
  text kind value := by simp [inside, removed]
  element tag cs _ hcs := by
    refine List.forall_mem_cons.2 ⟨rfl, fun m hm => ?_⟩
    obtain ⟨n, hn, hm⟩ := mem_insideIn_iff.1 hm
    exact hcs n hn m hm

end Node

namespace Markup

open Node

/-- The nodes that a reader gives are new: nothing has been removed from them. -/
def Reader.Fresh (read : Reader) : Prop :=
  ∀ markup nodes, read markup = .ok nodes → ∀ n ∈ insideIn nodes, n.removed = []

/-- A document made from new nodes is as it is read. -/
theorem Reader.Fresh.asRead {read : Reader} (hread : read.Fresh) {markup : List Char}
    {nodes : List Node} (h : read markup = .ok nodes) : AsRead (document nodes).withKeys :=
  asRead_withKeys (List.forall_mem_cons.2 ⟨rfl, hread markup nodes h⟩)

theorem fresh_parse? : Reader.Fresh parse? := by
  intro markup nodes h m hm
  obtain ⟨n, hn, hm⟩ := mem_insideIn_iff.1 hm
  exact forall_of_parse? inherent_unremoved h n hn m hm

end Markup

end Concordance
