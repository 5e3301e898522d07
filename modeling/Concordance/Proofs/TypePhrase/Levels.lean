import Concordance.Proofs.TypePhrase.Complete
import Concordance.Proofs.TypePhrase.Spelling
import Concordance.Proofs.TypePhrase.Valid

/-!
# The levels that a type phrase takes

The text of a type phrase takes a number of levels to read, its `cost`: one for a name, one more
for a record or a list than for what they hold, and one for the parentheses that a choice needs
where it is the element of a list. Tokens that spell a valid and legible phrase derive it wherever
so many levels are left (`isType_of_spells`), as long as no type in it starts with the word
`either`: where a type is read this word is the keyword. A `Canonical` phrase has such names only.
-/

namespace Concordance.TypePhrase

mutual
/-- The number of levels that the text of a phrase takes. -/
def cost : TypePhrase → Nat
  | .named _ => 1
  | .list element => if element.isUnion then 2 + cost element else 1 + cost element
  | .record fields => 1 + fieldCost fields
  | .union ts => alternativeCost ts

/-- The largest number of levels that a field takes. -/
def fieldCost : List (String × TypePhrase) → Nat
  | [] => 0
  | (_, t) :: fields => max (cost t) (fieldCost fields)

/-- The largest number of levels that an alternative takes. -/
def alternativeCost : List TypePhrase → Nat
  | [] => 0
  | t :: ts => max (cost t) (alternativeCost ts)
end

/-! ## Leading keywords -/

/-- The first word of a phrase is `either`, in small or capital letters. -/
def leadsEither : TypePhrase → Bool
  | .named name => (phraseWords name).head?.any (·.map Char.toLower = "either".toList)
  | .union (t :: _) => t.leadsEither
  | _ => false

mutual
/-- No type inside the phrase starts with the word `either`: neither the type of a field nor a
choice in parentheses. Where the phrase itself stands is left open. -/
def Settled : TypePhrase → Prop
  | .named _ => True
  | .list element => (element.isUnion = true → element.leadsEither = false) ∧ element.Settled
  | .record fields => SettledFields fields
  | .union ts => SettledAll ts

/-- No field has a type that starts with the word, or one inside it that does. -/
def SettledFields : List (String × TypePhrase) → Prop
  | [] => True
  | (_, t) :: fields => t.leadsEither = false ∧ t.Settled ∧ SettledFields fields

/-- `Settled` of every phrase. -/
def SettledAll : List TypePhrase → Prop
  | [] => True
  | t :: ts => t.Settled ∧ SettledAll ts
end

theorem leadsEither_of_plain (t : TypePhrase) (h : t.Plain) : t.leadsEither = false := by
  match t with
  | .named name =>
    rw [leadsEither, Option.any_eq_false]
    exact fun w hw => decide_eq_false (h.no_either w hw)
  | .list _ => rfl
  | .record _ => rfl
  | .union [] => rfl
  | .union (t :: _) => exact leadsEither_of_plain t h.1

mutual

theorem settled_of_plain (t : TypePhrase) (h : t.Plain) : t.Settled := by
  match t with
  | .named _ => trivial
  | .list element => exact ⟨fun _ => leadsEither_of_plain element h, settled_of_plain element h⟩
  | .record fields => exact settledFields_of_plain fields h
  | .union ts => exact settledAll_of_plain ts h

theorem settledFields_of_plain (fields : List (String × TypePhrase)) (h : PlainFields fields) :
    SettledFields fields := by
  match fields with
  | [] => trivial
  | (_, t) :: fields =>
    exact ⟨leadsEither_of_plain t h.2.1, settled_of_plain t h.2.1,
      settledFields_of_plain fields h.2.2⟩

theorem settledAll_of_plain (ts : List TypePhrase) (h : PlainAll ts) : SettledAll ts := by
  match ts with
  | [] => trivial
  | t :: ts => exact ⟨settled_of_plain t h.1, settledAll_of_plain ts h.2⟩

end

/-- A valid phrase whose names are plain. -/
structure Canonical (t : TypePhrase) : Prop where
  valid : t.Valid
  plain : t.Plain

/-! ## The first token -/

theorem isEither_eq_false {e : Token} (h : e.kind ≠ .word) : isEither e = false :=
  isWord_eq_false h

theorem Spells.head_of_not_isUnion {t : TypePhrase} {ts : List Token} (hu : t.isUnion = false)
    (h : Spells ts t) :
    ∃ e us, ts = e :: us ∧ isEither e = t.leadsEither ∧ e.kind ≠ .openParen := by
  cases t with
  | named name =>
    obtain ⟨hkind, htext⟩ := h.named
    obtain ⟨e, us, rfl⟩ : ∃ e us, ts = e :: us := by
      refine List.exists_cons_of_ne_nil ?_
      rintro rfl
      exact phraseWords_ne_nil name htext.symm
    have hk := hkind e List.mem_cons_self
    refine ⟨e, us, rfl, ?_, by simp [hk]⟩
    rw [leadsEither, ← htext, isEither, Token.isWord, hk]
    simp
  | list element =>
    obtain ⟨l, o, us, rfl, hl, -⟩ := h.listOf
    cases hl with
    | plain hl _ =>
      refine ⟨l, o :: us, rfl, ?_, by simp [hl.1]⟩
      rw [isEither, Token.isWord, hl.1, hl.2, leadsEither]
      · decide
      · simp
      · simp
  | record fields =>
    obtain ⟨o, us, c, rfl, ho, -⟩ := h.record
    exact ⟨o, _, rfl, isEither_eq_false (by simp [ho]), by simp [ho]⟩
  | union ts => simp [isUnion] at hu

/-- A phrase that starts with the keyword is spelled so. -/
theorem Spells.head {t : TypePhrase} {ts : List Token} (hv : t.Valid) (h : Spells ts t) :
    ∃ e us, ts = e :: us ∧ isEither e = t.leadsEither := by
  cases t with
  | union alts =>
    obtain ⟨hlen, hflat, -⟩ := hv
    match alts with
    | [] => simp at hlen
    | [_] => simp at hlen
    | t :: u :: alts =>
      rw [List.any_cons, Bool.or_eq_false_iff] at hflat
      obtain ⟨us, o, vs, rfl, hus, -⟩ := h.union.more
      obtain ⟨e, us, rfl, he, -⟩ := hus.head_of_not_isUnion hflat.1
      exact ⟨e, _, rfl, he⟩
  | _ =>
    obtain ⟨e, us, hts, he, -⟩ := h.head_of_not_isUnion rfl
    exact ⟨e, us, hts, he⟩

/-! ## Derivations

The four statements follow the four kinds of spellings. A type that is no choice is its only
alternative, so that the recursion stays on the same phrase there; the second measure counts this.
-/

theorem IsPrimary.isAlternative {k : Nat} {ts : List Token} {t : TypePhrase}
    (h : IsPrimary k ts t) (hk : k < maxLevels) : IsAlternative k ts t := by
  have halt : IsAlternative k (ts ++ []) (suffixed ([] : List Token).length t) :=
    .mk h (by simp) (by simpa using hk) (by simp)
  rwa [List.append_nil] at halt

theorem IsChoice.isType {last : Bool} {k : Nat} {ts : List Token} {t : TypePhrase}
    {alts : List TypePhrase} (h : IsChoice k ts (t :: alts))
    (hhead : ∃ e us, ts = e :: us ∧ isEither e = false) : IsType last k ts (either t alts) := by
  refine .plain h fun e us heq he => ?_
  obtain ⟨e', us', heq', he'⟩ := hhead
  obtain ⟨rfl, -⟩ := List.cons.inj (heq.symm.trans heq')
  rw [he] at he'
  exact absurd he' (by simp)

mutual

theorem isAlternative_of_spells (t : TypePhrase) (hu : t.isUnion = false) (hv : t.Valid)
    (hl : t.Legible) (hs : t.Settled) {k : Nat} {ts : List Token} (hk : k + t.cost ≤ maxLevels)
    (h : Spells ts t) : IsAlternative k ts t := by
  match t with
  | .named name =>
    rw [cost] at hk
    exact (h.isPrimary hl k).isAlternative (by omega)
  | .list element =>
    rw [cost] at hk
    by_cases he : element.isUnion = true
    · rw [if_pos he] at hk
      obtain ⟨l, o, p, us, c, rfl, hlist, hopen, hclose, hus⟩ := h.list_of_isUnion he
      have htype : IsType false (k + 1 + 1) us element :=
        isType_of_spells element hv hl hs.2 (hs.1 he) (by omega) hus
      have hpar := (IsPrimary.parenthesized hopen hclose htype).isAlternative (by omega)
      exact (IsPrimary.list hlist hpar).isAlternative (by omega)
    · rw [if_neg he] at hk
      obtain ⟨l, o, us, rfl, hlist, hus⟩ := h.list (Bool.eq_false_iff.2 he)
      have halt : IsAlternative (k + 1) us element :=
        isAlternative_of_spells element (Bool.eq_false_iff.2 he) hv hl hs.2 (by omega) hus
      exact (IsPrimary.list hlist halt).isAlternative (by omega)
  | .record [] =>
    obtain ⟨o, us, c, rfl, hopen, hclose, hus⟩ := h.record
    obtain rfl := List.map_eq_nil_iff.1 hus
    rw [cost] at hk
    exact (IsPrimary.empty hopen hclose).isAlternative (by omega)
  | .record (f :: fields) =>
    obtain ⟨o, us, c, rfl, hopen, hclose, hus⟩ := h.record
    rw [cost] at hk
    have hf : IsFields (k + 1) us (f :: fields) :=
      isFields_of_spells (f :: fields) (by simp) hv.2 hl hs (by omega) hus
    exact (IsPrimary.record hopen hclose hf hv.1).isAlternative (by omega)
  | .union ts => simp [isUnion] at hu
termination_by (sizeOf t, 0)

/-- A valid and legible phrase is derived by its spelling where its levels are left. -/
theorem isType_of_spells (t : TypePhrase) (hv : t.Valid) (hl : t.Legible) (hs : t.Settled)
    (hlead : t.leadsEither = false) {last : Bool} {k : Nat} {ts : List Token}
    (hk : k + t.cost ≤ maxLevels) (h : Spells ts t) : IsType last k ts t := by
  have hhead := h.head hv
  rw [hlead] at hhead
  by_cases hu : t.isUnion = true
  · match t with
    | .union [] => simp [Valid] at hv
    | .union [_] => simp [Valid] at hv
    | .union (t :: u :: alts) =>
      have hc := isChoice_of_spells (t :: u :: alts) (by simp) hv.2.1 hv.2.2 hl hs hk h.union
      rw [← either_of_valid hv.2.1]
      exact hc.isType hhead
  · have hu := Bool.eq_false_iff.2 hu
    have ha := isAlternative_of_spells t hu hv hl hs hk h
    rw [← either_of_not_isUnion hu]
    exact (IsChoice.one ha).isType hhead
termination_by (sizeOf t, 1)

theorem isChoice_of_spells (alts : List TypePhrase) (hne : alts ≠ [])
    (hflat : alts.any isUnion = false) (hv : ValidAll alts) (hl : LegibleAll alts)
    (hs : SettledAll alts) {k : Nat} {ts : List Token}
    (hk : k + alternativeCost alts ≤ maxLevels) (h : SpellsAll ts alts) : IsChoice k ts alts := by
  match alts with
  | [] => exact absurd rfl hne
  | [t] =>
    rw [alternativeCost] at hk
    have hu : t.isUnion = false := by simpa using hflat
    exact .one (isAlternative_of_spells t hu hv.1 hl.1 hs.1 (by omega) h.one)
  | t :: u :: alts =>
    obtain ⟨us, o, vs, rfl, hus, ho, hvs⟩ := h.more
    rw [List.any_cons, Bool.or_eq_false_iff] at hflat
    rw [alternativeCost] at hk
    have ha : IsAlternative k us t :=
      isAlternative_of_spells t hflat.1 hv.1 hl.1 hs.1 (by omega) hus
    exact .more ha ho
      (isChoice_of_spells (u :: alts) (by simp) hflat.2 hv.2 hl.2 hs.2 (by omega) hvs)
termination_by (sizeOf alts, 0)

theorem isFields_of_spells (fields : List (String × TypePhrase)) (hne : fields ≠ [])
    (hv : ValidFields fields) (hl : LegibleFields fields) (hs : SettledFields fields) {k : Nat}
    {ts : List Token} (hk : k + fieldCost fields ≤ maxLevels) (h : SpellsFields ts fields) :
    IsFields k ts fields := by
  match fields with
  | [] => exact absurd rfl hne
  | [(name, t)] =>
    obtain ⟨n, c, us, rfl, hkind, rfl, hc, hus⟩ := h.one
    rw [fieldCost] at hk
    exact .one hkind hc (isType_of_spells t hv.1 hl.2.1 hs.2.1 hs.1 (by omega) hus)
  | (name, t) :: f :: fields =>
    obtain ⟨n, c, us, m, vs, rfl, hkind, rfl, hc, hus, hm, hvs⟩ := h.more
    rw [fieldCost] at hk
    have ht : IsType false k us t :=
      isType_of_spells t hv.1 hl.2.1 hs.2.1 hs.1 (by omega) hus
    exact .more hkind hc ht hm
      (isFields_of_spells (f :: fields) (by simp) hv.2 hl.2.2 hs.2.2 (by omega) hvs)
termination_by (sizeOf fields, 0)

end

end Concordance.TypePhrase
