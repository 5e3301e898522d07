import Concordance.Proofs.TypePhrase.Keywords
import Concordance.Proofs.TypePhrase.RoundTrip
import Concordance.Proofs.TypePhrase.Separators

/-!
# Reading again what was read

The text of a type that was read is read as this type again unless one of two things is in the way.
The text may take more levels than are read: a choice in parentheses with list suffixes costs a
level less than the list phrases and parentheses that it is written with. And a type in it may start
with the word `either`, which was written twice, and of which reading again drops one. A type with
neither is `Stable`, and `parse_chars_iff` says that these types are read back and no others.

To see that no others are, the derivation that reads the text is taken apart along the text: it has
to cut the tokens where the text does (`Separators`) and can drop no keyword (`Keywords`).
-/

namespace Concordance.TypePhrase

/-- The phrase is a single word. -/
def isOneWord : TypePhrase → Bool
  | .named name => (phraseWords name).length = 1
  | _ => false

/-- A type that is read back from its text: it takes no more levels than are read, no type in it
starts with the word `either`, and the type itself does not either, unless it is that word. -/
structure Stable (t : TypePhrase) : Prop where
  cost_le : t.cost ≤ maxLevels
  settled : t.Settled
  first : t.leadsEither = true → t.isOneWord = true

/-! ## Taking derivations apart -/

section Invert

variable {k : Nat} {ts : List Token} {t : TypePhrase}

theorem noWord_of_brackets {ss : List Token} (hs : ∀ s ∈ ss, s.kind = .brackets) : NoWord ss := by
  cases ss with
  | nil => exact noWord_nil
  | cons s ss => exact noWord_cons.2 (isPhraseWord_eq_false (by simp [hs s List.mem_cons_self]))

/-- An alternative has no suffix when it starts like a list phrase or does not end in one. -/
theorem IsAlternative.isPrimary (h : IsAlternative k ts t)
    (hend : StartsListPhrase ts ∨ ∀ s ∈ ts.getLast?, s.kind ≠ .brackets) :
    IsPrimary k ts t ∧ k < maxLevels := by
  cases h with
  | @mk _ us ss t h hs hk hl =>
    have hnil : ss = [] := by
      by_contra hne
      rcases hend with hstart | hlast
      · exact not_startsListPhrase_append (hl hne) (noWord_of_brackets hs) hstart
      · have hmem := List.getLast_mem hne
        refine hlast (ss.getLast hne) ?_ (hs _ hmem)
        rw [List.getLast?_append_of_ne_nil _ hne, List.getLast?_eq_some_getLast hne]
        rfl
    subst hnil
    rw [List.append_nil]
    exact ⟨h, by simpa using hk⟩

theorem IsAlternative.lt (h : IsAlternative k ts t) : k < maxLevels := by
  cases h with
  | mk _ _ hk _ => omega

theorem isUnion_suffixed (n : Nat) (t : TypePhrase) : (suffixed (n + 1) t).isUnion = false := by
  induction n generalizing t with
  | zero => rfl
  | succ n ih => exact ih (.list t)

/-- An alternative that is a choice stands in parentheses. -/
theorem IsAlternative.head_of_isUnion (h : IsAlternative k ts t) (hu : t.isUnion = true) :
    ∃ p us, ts = p :: us ∧ p.kind = .openParen := by
  cases h with
  | @mk _ us ss t h _ _ _ =>
    cases ss with
    | nil =>
      rw [List.length_nil, suffixed] at hu
      cases h with
      | parenthesized ho _ _ => exact ⟨_, _, rfl, ho⟩
      | _ => simp [isUnion, phraseOf] at hu
    | cons s ss =>
      rw [List.length_cons, isUnion_suffixed] at hu
      cases hu

theorem IsPrimary.of_parenthesized {p c : Token} {us : List Token}
    (h : IsPrimary k (p :: (us ++ [c])) t) (hp : p.kind = .openParen) :
    IsType false (k + 1) us t := by
  have hword : ∀ {ws : List Token} {w : Token}, w :: ws = p :: (us ++ [c]) →
      isPhraseWord w ≠ true := by
    intro ws w heq hw
    rw [(List.cons.inj heq).1, isPhraseWord_eq_false (by simp [hp])] at hw
    cases hw
  generalize hts : p :: (us ++ [c]) = ts at h
  cases h with
  | empty ho _ =>
    rw [← (List.cons.inj hts).1, hp] at ho
    cases ho
  | record ho _ _ _ =>
    rw [← (List.cons.inj hts).1, hp] at ho
    cases ho
  | parenthesized _ _ h =>
    obtain ⟨-, htail⟩ := List.cons.inj hts
    rwa [(List.append_inj' htail rfl).1]
  | list hw _ =>
    obtain ⟨w, ws, rfl⟩ := List.exists_cons_of_ne_nil hw.ne_nil
    exact absurd (hw.isPhraseWord List.mem_cons_self) (hword hts.symm)
  | words hne hwords _ =>
    obtain ⟨w, ws, rfl⟩ := List.exists_cons_of_ne_nil hne
    exact absurd (hwords w List.mem_cons_self) (hword hts.symm)

theorem IsPrimary.of_record {o c : Token} {us : List Token} {fields : List (String × TypePhrase)}
    (h : IsPrimary k (o :: (us ++ [c])) (.record fields)) (ho : o.kind = .openBrace) :
    fields = [] ∨ IsFields (k + 1) us fields := by
  generalize hts : o :: (us ++ [c]) = ts at h
  cases h with
  | empty _ _ => exact .inl rfl
  | record _ _ h _ =>
    obtain ⟨-, htail⟩ := List.cons.inj hts
    rw [(List.append_inj' htail rfl).1]
    exact .inr h
  | parenthesized hp _ _ =>
    rw [← (List.cons.inj hts).1, ho] at hp
    cases hp

theorem IsFields.of_more {name : String} {f : String × TypePhrase}
    {fields : List (String × TypePhrase)} (h : IsFields k ts ((name, t) :: f :: fields)) :
    ∃ n c us m vs, ts = n :: c :: (us ++ m :: vs) ∧ IsType false k us t ∧ m.kind = .comma ∧
      IsFields k vs (f :: fields) := by
  cases h with
  | more _ _ h hm hr => exact ⟨_, _, _, _, _, rfl, h, hm, hr⟩

/-- After the words of a list phrase comes its element. -/
theorem IsPrimary.of_list {ws us : List Token} (h : IsPrimary k (ws ++ us) t) (hw : IsListOf ws) :
    ∃ element, t = .list element ∧ IsAlternative (k + 1) us element := by
  have hstart : StartsListPhrase (ws ++ us) := ⟨ws, us, hw, rfl⟩
  have hafter : afterListPhrase? (ws ++ us) = some us :=
    afterListPhrase?_eq_some_iff.2 ⟨ws, hw, rfl⟩
  generalize ws ++ us = ts at h hstart hafter
  cases h with
  | @list _ ws' us' element hw' h =>
    have hafter' : afterListPhrase? (ws' ++ us') = some us' :=
      afterListPhrase?_eq_some_iff.2 ⟨ws', hw', rfl⟩
    obtain rfl := Option.some.inj (hafter.symm.trans hafter')
    exact ⟨element, rfl, h⟩
  | words _ _ hl => exact absurd hstart hl
  | empty ho _ => exact absurd (startsListPhrase_cons hstart) (by simp [ho])
  | record ho _ _ _ => exact absurd (startsListPhrase_cons hstart) (by simp [ho])
  | parenthesized ho _ _ => exact absurd (startsListPhrase_cons hstart) (by simp [ho])

end Invert

/-! ## Choices along their text -/

section Choice

variable {k : Nat} {ts : List Token} {t : TypePhrase} {alts : List TypePhrase}

theorem IsChoice.alts_ne_nil (h : IsChoice k ts alts) : alts ≠ [] := by
  cases h <;> simp

theorem Valid.eq_of_alternatives {a : TypePhrase} (h : a.Valid) (ha : a.alternatives = [t]) :
    a = t := by
  rw [← ofAlternatives_alternatives h, ha]
  rfl

/-- A choice with a single alternative is this alternative. -/
theorem IsChoice.of_one (h : IsChoice k ts alts) (hv : ValidAll alts)
    (hflat : alts.flatMap alternatives = [t]) : IsAlternative k ts t := by
  cases h with
  | one h =>
    have ha := hv.1.eq_of_alternatives (by simpa using hflat)
    rwa [← ha]
  | @more _ _ _ _ a alts h _ hm =>
    have hne : alts.flatMap alternatives ≠ [] := by
      obtain ⟨b, bs, rfl⟩ := List.exists_cons_of_ne_nil hm.alts_ne_nil
      exact flatMap_alternatives_ne_nil hv.2.1 _
    have hlen := congrArg List.length hflat
    have h1 := List.length_pos_iff.2 hne
    have h2 := List.length_pos_iff.2 hv.1.alternatives_ne_nil
    rw [List.flatMap_cons, List.length_append, List.length_singleton] at hlen
    omega

/-- A choice with several alternatives is cut where its text is. -/
theorem IsChoice.of_more {u : TypePhrase} {rest : List TypePhrase} (h : IsChoice k ts alts)
    (hv : ValidAll alts) (hflat : alts.flatMap alternatives = t :: u :: rest)
    (hu : t.isUnion = false) (hl : t.Legible) (hs : SpellsAll ts (t :: u :: rest)) :
    ∃ us o vs alts', ts = us ++ o :: vs ∧ IsAlternative k us t ∧ Spells us t ∧
      IsChoice k vs alts' ∧ ValidAll alts' ∧ alts'.flatMap alternatives = u :: rest ∧
      SpellsAll vs (u :: rest) := by
  obtain ⟨us, o, vs, rfl, hus, ho, hvs⟩ := hs.more
  obtain ⟨e, us', rfl, -, hparen⟩ := hus.head_of_not_isUnion hu
  generalize hts : e :: us' ++ o :: vs = ts at h
  cases h with
  | one h =>
    -- several alternatives in one would stand in parentheses
    have hunion : ∃ p us, ts = p :: us ∧ p.kind = .openParen := by
      refine h.head_of_isUnion ?_
      rw [List.flatMap_cons, List.flatMap_nil, List.append_nil] at hflat
      by_contra hno
      rw [alternatives_of_not_isUnion (Bool.eq_false_iff.2 hno)] at hflat
      simp at hflat
    obtain ⟨p, us, rfl, hp⟩ := hunion
    exact absurd hp ((List.cons.inj hts).1 ▸ hparen)
  | @more _ ws xs o' a alts h ho' hm =>
    have hspelled : Enclosed isSeparator ((e :: us').map Token.mark) := by
      rw [hus]
      exact enclosed_spelling_of_not_isUnion t hu hl
    obtain ⟨rfl, rfl⟩ :=
      hspelled.cut h.enclosed (isSeparator_of_isOr ho) (isSeparator_of_isOr ho') hts
    have ha : a.isUnion = false := by
      by_contra hunion
      obtain ⟨p, us, heq, hp⟩ := h.head_of_isUnion (Bool.not_eq_false _ ▸ hunion)
      exact hparen ((List.cons.inj heq).1 ▸ hp)
    rw [List.flatMap_cons, alternatives_of_not_isUnion ha, List.singleton_append,
      List.cons.injEq] at hflat
    obtain ⟨rfl, hrest⟩ := hflat
    exact ⟨_, o, _, alts, hts.symm, h, hus, hm, hv.2, hrest, hvs⟩

end Choice

/-! ## Derivations along the text that they read

The four statements follow the four kinds of phrases, as in `isType_of_spells`.
-/

mutual

/-- An alternative that is derived by its spelling has its levels, and no type inside it starts
with the keyword. -/
theorem settled_of_isAlternative (t : TypePhrase) (hu : t.isUnion = false) (hl : t.Legible)
    {k : Nat} {ts : List Token} (hts : ∀ w ∈ ts, w.WellFormed) (h : IsAlternative k ts t)
    (hs : Spells ts t) : k + t.cost ≤ maxLevels ∧ t.Settled := by
  match t with
  | .named name =>
    have hlt := h.lt
    rw [cost]
    exact ⟨by omega, trivial⟩
  | .list element =>
    obtain ⟨l, o, us, rfl, hlist, -⟩ := hs.listOf
    obtain ⟨hprimary, -⟩ := h.isPrimary (.inl ⟨[l, o], us, hlist, rfl⟩)
    obtain ⟨_, ⟨⟩, halt⟩ := hprimary.of_list hlist
    have hus := (List.forall_mem_append.1 hts).2
    rw [cost]
    by_cases he : element.isUnion = true
    · obtain ⟨l', o', p, vs, c, heq, -, hopen, hclose, hvs⟩ := hs.list_of_isUnion he
      obtain ⟨-, -, rfl⟩ : l = l' ∧ o = o' ∧ us = p :: (vs ++ [c]) := by simpa using heq
      obtain ⟨hpar, -⟩ := halt.isPrimary (.inr (by
        rw [← List.cons_append, List.getLast?_concat]
        simp [hclose]))
      have htype := hpar.of_parenthesized hopen
      have hinner := (List.forall_mem_append.1 (List.forall_mem_cons.1 hus).2).1
      obtain ⟨hcost, hsettled, hlead⟩ := settled_of_isType element hl hinner htype hvs
      rw [if_pos he]
      refine ⟨by omega, fun _ => ?_, hsettled⟩
      by_contra hfirst
      exact absurd (hlead (Bool.not_eq_false _ ▸ hfirst)).1 (by simp)
    · obtain ⟨l', o', vs, heq, -, hvs⟩ := hs.list (Bool.eq_false_iff.2 he)
      obtain ⟨-, -, rfl⟩ : l = l' ∧ o = o' ∧ us = vs := by simpa using heq
      obtain ⟨hcost, hsettled⟩ :=
        settled_of_isAlternative element (Bool.eq_false_iff.2 he) hl hus halt hvs
      rw [if_neg he]
      exact ⟨by omega, fun hunion => absurd hunion he, hsettled⟩
  | .record fields =>
    obtain ⟨o, us, c, rfl, hopen, hclose, hus⟩ := hs.record
    obtain ⟨hprimary, hlt⟩ := h.isPrimary (.inr (by
      rw [← List.cons_append, List.getLast?_concat]
      simp [hclose]))
    have hinner := (List.forall_mem_append.1 (List.forall_mem_cons.1 hts).2).1
    rw [cost]
    rcases hprimary.of_record hopen with rfl | hfields
    · rw [fieldCost]
      exact ⟨by omega, trivial⟩
    · obtain ⟨hcost, hsettled⟩ := settled_of_isFields fields hl hinner hfields hus
      exact ⟨by omega, hsettled⟩
  | .union ts => simp [isUnion] at hu
termination_by (sizeOf t, 0)

/-- A type that is derived by its spelling does not start with the keyword, unless it is a single
word at the end of the text. -/
theorem settled_of_isType (t : TypePhrase) (hl : t.Legible) {last : Bool} {k : Nat}
    {ts : List Token} (hts : ∀ w ∈ ts, w.WellFormed) (h : IsType last k ts t) (hs : Spells ts t) :
    k + t.cost ≤ maxLevels ∧ t.Settled ∧
      (t.leadsEither = true → last = true ∧ ts.length = 1) := by
  obtain ⟨a, alts, heq, hchoice, hsole⟩ := h.isChoice_of_spells hts hs
  have hvalid := hchoice.valid hts
  have hflat := alternatives_either (validAll_iff.1 hvalid)
  have hv : t.Valid := h.valid hts
  rw [← heq] at hflat
  have hlead : t.leadsEither = true → last = true ∧ ts.length = 1 := by
    intro hfirst
    obtain ⟨e, us, rfl, he⟩ := hs.head hv
    obtain ⟨rfl, hlast⟩ := hsole e us rfl (he.trans hfirst)
    exact ⟨hlast, rfl⟩
  by_cases hu : t.isUnion = true
  · match t with
    | .union us =>
      obtain ⟨hcost, hsettled⟩ :=
        settled_of_isChoice us hv.2.1 hl hts hchoice hvalid hflat.symm hs.union
      exact ⟨hcost, hsettled, hlead⟩
  · have hu := Bool.eq_false_iff.2 hu
    rw [alternatives_of_not_isUnion hu] at hflat
    obtain ⟨hcost, hsettled⟩ :=
      settled_of_isAlternative t hu hl hts (hchoice.of_one hvalid hflat.symm) hs
    exact ⟨hcost, hsettled, hlead⟩
termination_by (sizeOf t, 1)

theorem settled_of_isChoice (us : List TypePhrase) (hflat : us.any isUnion = false)
    (hl : LegibleAll us) {k : Nat} {ts : List Token} {alts : List TypePhrase}
    (hts : ∀ w ∈ ts, w.WellFormed) (h : IsChoice k ts alts) (hv : ValidAll alts)
    (halts : alts.flatMap alternatives = us) (hs : SpellsAll ts us) :
    k + alternativeCost us ≤ maxLevels ∧ SettledAll us := by
  match us with
  | [] =>
    obtain ⟨a, alts, rfl⟩ := List.exists_cons_of_ne_nil h.alts_ne_nil
    exact absurd halts (flatMap_alternatives_ne_nil hv.1 _)
  | [t] =>
    obtain ⟨hcost, hsettled⟩ := settled_of_isAlternative t (by simpa using hflat) hl.1 hts
      (h.of_one hv halts) hs.one
    rw [alternativeCost, alternativeCost]
    exact ⟨by omega, hsettled, trivial⟩
  | t :: u :: rest =>
    rw [List.any_cons, Bool.or_eq_false_iff] at hflat
    obtain ⟨us, o, vs, alts', rfl, halt, hus, hmore, hv', halts', hvs⟩ :=
      h.of_more hv halts hflat.1 hl.1 hs
    obtain ⟨hfirst, hrest⟩ := List.forall_mem_append.1 hts
    obtain ⟨hcost, hsettled⟩ := settled_of_isAlternative t hflat.1 hl.1 hfirst halt hus
    obtain ⟨hcost', hsettled'⟩ := settled_of_isChoice (u :: rest) hflat.2 hl.2
      (List.forall_mem_cons.1 hrest).2 hmore hv' halts' hvs
    rw [alternativeCost]
    exact ⟨by omega, hsettled, hsettled'⟩
termination_by (sizeOf us, 0)

theorem settled_of_isFields (fields : List (String × TypePhrase)) (hl : LegibleFields fields)
    {k : Nat} {ts : List Token} (hts : ∀ w ∈ ts, w.WellFormed) (h : IsFields k ts fields)
    (hs : SpellsFields ts fields) : k + fieldCost fields ≤ maxLevels ∧ SettledFields fields := by
  match fields with
  | [] => cases h
  | [(name, t)] =>
    obtain ⟨n, c, us, rfl, -, rfl, -, hus⟩ := hs.one
    have hinner := (List.forall_mem_cons.1 (List.forall_mem_cons.1 hts).2).2
    have htype : IsType false k us t := by
      cases h with
      | one _ _ h => exact h
      | more _ _ _ _ hr => cases hr
    obtain ⟨hcost, hsettled, hlead⟩ := settled_of_isType t hl.2.1 hinner htype hus
    rw [fieldCost, fieldCost]
    refine ⟨by omega, ?_, hsettled, trivial⟩
    by_contra hfirst
    exact absurd (hlead (Bool.not_eq_false _ ▸ hfirst)).1 (by simp)
  | (name, t) :: f :: fields =>
    obtain ⟨n, c, us, m, vs, rfl, -, rfl, -, hus, hm, hvs⟩ := hs.more
    obtain ⟨hinner, hrest⟩ :=
      List.forall_mem_append.1 (List.forall_mem_cons.1 (List.forall_mem_cons.1 hts).2).2
    obtain ⟨n', c', us', m', vs', heq, htype, hm', hfields⟩ := h.of_more
    have hspelled : Enclosed isComma (us.map Token.mark) := by
      rw [hus]
      exact enclosed_spelling t hl.2.1
    obtain ⟨rfl, rfl⟩ := hspelled.cut htype.enclosed (isComma_of_kind hm) (isComma_of_kind hm')
      (List.cons.inj (List.cons.inj heq).2).2
    obtain ⟨hcost, hsettled, hlead⟩ := settled_of_isType t hl.2.1 hinner htype hus
    obtain ⟨hcost', hsettled'⟩ := settled_of_isFields (f :: fields) hl.2.2
      (List.forall_mem_cons.1 hrest).2 hfields hvs
    rw [fieldCost]
    refine ⟨by omega, ?_, hsettled, hsettled'⟩
    by_contra hfirst
    exact absurd (hlead (Bool.not_eq_false _ ▸ hfirst)).1 (by simp)
termination_by (sizeOf fields, 0)

end

/-! ## Texts -/

section Texts

variable {t : TypePhrase} {ts : List Token} (hv : t.Valid) (hl : t.Legible) (hs : Spells ts t)
include hv hl hs

/-- Only a single word is spelled by one token, if it starts with the keyword. -/
theorem isOneWord_of_length (hlead : t.leadsEither = true) (hlen : ts.length = 1) :
    t.isOneWord = true := by
  match t with
  | .named name =>
    rw [isOneWord, ← hs.named.2, List.length_map, hlen]
    rfl
  | .list _ => simp [leadsEither] at hlead
  | .record _ => simp [leadsEither] at hlead
  | .union [] => simp [Valid] at hv
  | .union [_] => simp [Valid] at hv
  | .union (t :: u :: rest) =>
    obtain ⟨us, o, vs, rfl, hus, -⟩ := hs.union.more
    have hflat := hv.2.1
    rw [List.any_cons, Bool.or_eq_false_iff] at hflat
    obtain ⟨e, us', rfl, -⟩ := hus.head_of_not_isUnion hflat.1
    simp at hlen

/-- A stable type is derived by its spelling. -/
theorem isType_of_stable (h : t.Stable) : IsType true 0 ts t := by
  have hk : 0 + t.cost ≤ maxLevels := by
    rw [Nat.zero_add]
    exact h.cost_le
  cases hlead : t.leadsEither with
  | false => exact isType_of_spells t hv hl h.settled hlead hk hs
  | true =>
    have hword := h.first hlead
    match t with
    | .named name =>
      have hlen : ts.length = 1 := by
        rw [isOneWord, ← hs.named.2, List.length_map] at hword
        exact of_decide_eq_true hword
      obtain ⟨e, rfl⟩ := List.length_eq_one_iff.1 hlen
      have halt := (hs.isPrimary hl 0).isAlternative (by decide)
      rw [← either_of_not_isUnion (t := .named name) rfl]
      refine .plain (.one halt) fun e' us heq _ => ⟨?_, rfl⟩
      exact (List.cons.inj heq).2.symm

end Texts

/-- **A type is read back from its text exactly when it is stable**, if it is valid and its names
are words with single spaces between them, as those of every type that was read are. -/
theorem parse_chars_iff {t : TypePhrase} (hv : t.Valid) (hl : t.Legible) :
    parse t.chars = .ok t ↔ t.Stable := by
  have hs := spells_scan hl
  rw [parse_ok_iff]
  constructor
  · intro h
    have hts : ∀ w ∈ Token.scan t.chars, w.WellFormed := fun _ => Token.wellFormed_of_mem_scan
    obtain ⟨hcost, hsettled, hlead⟩ := settled_of_isType t hl hts h hs
    refine ⟨by omega, hsettled, fun hfirst => ?_⟩
    exact isOneWord_of_length hv hl hs hfirst (hlead hfirst).2
  · exact isType_of_stable hv hl hs

end Concordance.TypePhrase
