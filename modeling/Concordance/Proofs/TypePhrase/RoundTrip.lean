import Concordance.Proofs.TypePhrase.Levels

/-!
# Reading what was written

A canonical type phrase is read back from its text as long as it takes no more than `maxLevels`
levels, and any other one is refused as nested too deeply. The first half is the derivation of
`isType_of_spells` along which the reader runs. For the second half, a reader that is given too few
levels is followed to the part of the phrase that runs out of them: all parts before this one are
read, by the first half, so that no other misparse comes first.

The main statement is `parseAt_render`.
-/

namespace Concordance.TypePhrase

/-! ## Enough levels -/

section Read

variable {t : TypePhrase} {n : Nat} {ts rest : List Token}

theorem alt_of_spells (hu : t.isUnion = false) (hv : t.Valid) (hp : t.Plain) (hn : n ≤ maxLevels)
    (hc : t.cost ≤ n) (h : Spells ts t) (hw : NoWord rest) (hs : NoSuffix rest) :
    alt n (ts ++ rest) = .ok (t, rest) := by
  have hk : maxLevels - n + t.cost ≤ maxLevels := by omega
  have halt := isAlternative_of_spells t hu hv (legible_of_plain t hp) (settled_of_plain t hp) hk h
  exact halt.read (by omega) hw hs

theorem readUnion_of_spells (hv : t.Valid) (hp : t.Plain) (hn : n ≤ maxLevels) (hc : t.cost ≤ n)
    (h : Spells ts t) (hw : NoWord rest) (hs : NoSuffix rest) (ho : NoOr rest) :
    readUnion (alt n) (ts ++ rest) = .ok (t, rest) := by
  have hk : maxLevels - n + t.cost ≤ maxLevels := by omega
  have htype : IsType false (maxLevels - n) ts t :=
    isType_of_spells t hv (legible_of_plain t hp) (settled_of_plain t hp)
      (leadsEither_of_plain t hp) hk h
  exact htype.read (by omega) hw hs ho (by simp)

end Read

/-! ## Readers that run out of levels -/

/-- A reading that fails because the phrase nests too deeply. -/
def TooDeep {α : Type} (x : Except Misparse α) : Prop := ∃ token, x = .error ⟨.tooDeep, token⟩

namespace TooDeep

variable {α β : Type} {x : Except Misparse α}

theorem bind (h : TooDeep x) (f : α → Except Misparse β) : TooDeep (x >>= f) := by
  obtain ⟨token, rfl⟩ := h
  exact ⟨token, rfl⟩

theorem bind_of_ok {a : α} {f : α → Except Misparse β} (hx : x = .ok a) (h : TooDeep (f a)) :
    TooDeep (x >>= f) := by
  rw [hx]
  exact h

theorem map (h : TooDeep x) (f : α → β) : TooDeep (x.map f) := by
  obtain ⟨token, rfl⟩ := h
  exact ⟨token, rfl⟩

end TooDeep

/-- One of the alternatives from here on nests too deeply, the ones before it being read. -/
def ChoiceTooDeep (r : Reader) (ts : List Token) : Prop :=
  TooDeep (r ts) ∨ ∃ a us, r ts = .ok (a, us) ∧ us.length ≤ ts.length ∧
    ∀ bound, us.length ≤ bound → TooDeep (readMore r bound us)

section Readers

variable {r : Reader} {ts : List Token}

theorem readMore_tooDeep {o : Token} (ho : isOr o = true) (h : ChoiceTooDeep r ts) {bound : Nat}
    (hb : ts.length ≤ bound) : TooDeep (readMore r (bound + 1) (o :: ts)) := by
  have hor : o.isWord "or".toList = true := ho
  rw [readMore, if_pos hor]
  rcases h with h | ⟨a, us, ha, hlen, hmore⟩
  · exact h.bind _
  · exact .bind_of_ok ha ((hmore bound (by omega)).bind _)

theorem readUnion_tooDeep (h : ChoiceTooDeep r (dropEither ts)) : TooDeep (readUnion r ts) := by
  rw [readUnion]
  rcases h with h | ⟨a, us, ha, -, hmore⟩
  · exact h.bind _
  · exact .bind_of_ok ha ((hmore _ (Nat.le_refl _)).bind _)

theorem dropEither_append {rest : List Token} (h : ∃ e us, ts = e :: us ∧ isEither e = false) :
    dropEither (ts ++ rest) = ts ++ rest := by
  obtain ⟨e, us, rfl, he⟩ := h
  rcases dropEither_cases (e :: us ++ rest) with ⟨e', us', heq, -, he', -⟩ | ⟨hd, -⟩
  · rw [← (List.cons.inj heq).1, he] at he'
    exact absurd he' (by simp)
  · exact hd

/-- A field whose type nests too deeply, or one that is read before such fields. -/
theorem readFields_tooDeep {opening : Token} {bound : Nat} {seen : List String} {name : String}
    {us vs : List Token} (hname : readFieldName seen ts = .ok (name, us))
    (hcolon : readColon us = .ok vs)
    (h : TooDeep (readUnion r vs) ∨ ∃ a m ws, readUnion r vs = .ok (a, m :: ws) ∧
      m.kind = .comma ∧ TooDeep (readFields r opening bound (name :: seen) ws)) :
    TooDeep (readFields r opening (bound + 1) seen ts) := by
  rw [readFields]
  refine .bind_of_ok hname (.bind_of_ok hcolon ?_)
  rcases h with h | ⟨a, m, ws, ha, hm, hmore⟩
  · exact h.bind _
  · refine .bind_of_ok ha ?_
    simp only [hm, if_true]
    exact hmore.bind _

/-- An alternative whose primary nests too deeply with one level less. -/
theorem alt_tooDeep_of_primary {n : Nat}
    (h : ∀ m, n = m + 1 → TooDeep (readPrimary (alt m) ts)) : TooDeep (alt n ts) := by
  cases n with
  | zero => exact ⟨ts.head?, rfl⟩
  | succ m => exact (h m rfl).bind _

theorem readPrimary_parenthesized_tooDeep {p : Token} (hp : p.kind = .openParen)
    (h : TooDeep (readUnion r ts)) : TooDeep (readPrimary r (p :: ts)) := by
  have hne : p.kind ≠ .openBrace := by simp [hp]
  simp only [readPrimary, if_neg hne, if_pos hp]
  exact h.bind _

theorem readPrimary_record_tooDeep {o : Token} (ho : o.kind = .openBrace)
    (hts : ∀ c ∈ ts.head?, c.kind ≠ .closeBrace)
    (h : TooDeep (readFields r o ts.length [] ts)) : TooDeep (readPrimary r (o :: ts)) := by
  simp only [readPrimary, if_pos ho]
  cases ts with
  | nil =>
    obtain ⟨token, h⟩ := h
    simp [readFields] at h
  | cons c ts =>
    rw [readRecord, if_neg (hts c rfl)]
    exact h.map _

end Readers

/-! ## Too few levels -/

/-- The fields before the one that nests too deeply have names of their own. -/
theorem readFieldName_cons {n : Token} (us : List Token) {seen : List String}
    (hkind : n.kind = .word ∨ n.kind = .slot) (hseen : String.ofList n.text ∉ seen) :
    readFieldName seen (n :: us) = .ok (String.ofList n.text, us) :=
  readFieldName_ok_iff.2 ⟨n, rfl, hkind, rfl, hseen⟩

mutual

/-- An alternative that takes more levels than there are is refused, whatever follows it. -/
theorem alt_tooDeep (t : TypePhrase) (hu : t.isUnion = false) (hv : t.Valid) (hp : t.Plain)
    {n : Nat} {ts : List Token} (hn : n ≤ maxLevels) (hc : n < t.cost) (h : Spells ts t)
    (rest : List Token) : TooDeep (alt n (ts ++ rest)) := by
  refine alt_tooDeep_of_primary fun m hm => ?_
  match t with
  | .named name =>
    rw [cost] at hc
    omega
  | .list element =>
    rw [cost] at hc
    by_cases he : element.isUnion = true
    · rw [if_pos he] at hc
      obtain ⟨l, o, p, us, c, rfl, hl, hopen, hclose, hus⟩ := h.list_of_isUnion he
      rw [List.append_assoc, readPrimary_listOf hl]
      refine TooDeep.map (alt_tooDeep_of_primary fun m' hm' => ?_) _
      rw [List.cons_append, List.append_assoc]
      apply readPrimary_parenthesized_tooDeep hopen
      exact readUnion_tooDeep_of_spells element hv hp (by omega) (by omega) hus _
    · have he := Bool.eq_false_iff.2 he
      rw [if_neg (by simp [he])] at hc
      obtain ⟨l, o, us, rfl, hl, hus⟩ := h.list he
      rw [List.append_assoc, readPrimary_listOf hl]
      exact (alt_tooDeep element he hv hp (by omega) (by omega) hus rest).map _
  | .record [] =>
    rw [cost, fieldCost] at hc
    omega
  | .record (f :: fields) =>
    rw [cost] at hc
    obtain ⟨o, us, c, rfl, hopen, hclose, hus⟩ := h.record
    rw [List.cons_append, List.append_assoc]
    apply readPrimary_record_tooDeep hopen
    · obtain ⟨name, d, vs, rfl, hkind, -⟩ := hus.cons
      rcases hkind with hkind | hkind <;> simp [hkind]
    · exact fields_tooDeep (f :: fields) hv.1 hv.2 hp (by simp) (by omega) (by omega) hus _
        (Nat.le_refl _)
  | .union ts => simp [isUnion] at hu
termination_by (sizeOf t, 0)

theorem readUnion_tooDeep_of_spells (t : TypePhrase) (hv : t.Valid) (hp : t.Plain) {n : Nat}
    {ts : List Token} (hn : n ≤ maxLevels) (hc : n < t.cost) (h : Spells ts t)
    (rest : List Token) : TooDeep (readUnion (alt n) (ts ++ rest)) := by
  apply readUnion_tooDeep
  rw [dropEither_append (by simpa [leadsEither_of_plain t hp] using h.head hv)]
  by_cases hu : t.isUnion = true
  · match t with
    | .union alts => exact choice_tooDeep alts hv.2.1 hv.2.2 hp hn hc h.union rest
  · exact .inl (alt_tooDeep t (Bool.eq_false_iff.2 hu) hv hp hn hc h rest)
termination_by (sizeOf t, 1)

theorem choice_tooDeep (alts : List TypePhrase) (hflat : alts.any isUnion = false)
    (hv : ValidAll alts) (hp : PlainAll alts) {n : Nat} {ts : List Token} (hn : n ≤ maxLevels)
    (hc : n < alternativeCost alts) (h : SpellsAll ts alts) (rest : List Token) :
    ChoiceTooDeep (alt n) (ts ++ rest) := by
  match alts with
  | [] =>
    rw [alternativeCost] at hc
    omega
  | [t] =>
    rw [alternativeCost, alternativeCost] at hc
    exact .inl (alt_tooDeep t (by simpa using hflat) hv.1 hp.1 hn (by omega) h.one rest)
  | t :: u :: alts =>
    obtain ⟨us, o, vs, rfl, hus, ho, hvs⟩ := h.more
    rw [List.any_cons, Bool.or_eq_false_iff] at hflat
    rw [alternativeCost] at hc
    rw [List.append_assoc]
    by_cases ht : n < t.cost
    · exact .inl (alt_tooDeep t hflat.1 hv.1 hp.1 hn ht hus _)
    · -- the alternative has levels enough and is read, so a later one has not
      obtain ⟨hw, hs⟩ := ends_of_isOr (vs ++ rest) ho
      have hread : alt n (us ++ o :: (vs ++ rest)) = .ok (t, o :: (vs ++ rest)) :=
        alt_of_spells hflat.1 hv.1 hp.1 hn (by omega) hus hw hs
      have hmore := choice_tooDeep (u :: alts) hflat.2 hv.2 hp.2 hn (by omega) hvs rest
      refine .inr ⟨t, _, hread, by simp, fun bound hb => ?_⟩
      cases bound with
      | zero => simp at hb
      | succ bound => exact readMore_tooDeep ho hmore (by simpa using hb)
termination_by (sizeOf alts, 0)

theorem fields_tooDeep (fields : List (String × TypePhrase)) (hd : (fields.map (·.1)).Nodup)
    (hv : ValidFields fields) (hp : PlainFields fields) {n bound : Nat} {ts : List Token}
    {opening : Token} {seen : List String} (hseen : ∀ name ∈ fields.map (·.1), name ∉ seen)
    (hn : n ≤ maxLevels) (hc : n < fieldCost fields) (h : SpellsFields ts fields)
    (rest : List Token) (hb : (ts ++ rest).length ≤ bound) :
    TooDeep (readFields (alt n) opening bound seen (ts ++ rest)) := by
  match fields with
  | [] =>
    rw [fieldCost] at hc
    omega
  | [(name, t)] =>
    obtain ⟨m, c, us, rfl, hkind, rfl, hcolon, hus⟩ := h.one
    rw [fieldCost, fieldCost] at hc
    cases bound with
    | zero => simp at hb
    | succ bound =>
      have hname := readFieldName_cons (c :: us ++ rest) hkind (hseen _ (by simp))
      have hdeep := readUnion_tooDeep_of_spells t hv.1 hp.2.1 hn (by omega) hus rest
      exact readFields_tooDeep hname (readColon_ok_iff.2 ⟨c, rfl, hcolon⟩) (.inl hdeep)
  | (name, t) :: f :: fields =>
    obtain ⟨m, c, us, d, vs, rfl, hkind, rfl, hcolon, hus, hcomma, hvs⟩ := h.more
    rw [fieldCost] at hc
    cases bound with
    | zero => simp at hb
    | succ bound =>
      simp only [List.cons_append, List.append_assoc]
      have hname := readFieldName_cons (c :: (us ++ d :: (vs ++ rest))) hkind (hseen _ (by simp))
      refine readFields_tooDeep hname (readColon_ok_iff.2 ⟨c, rfl, hcolon⟩) ?_
      by_cases ht : n < t.cost
      · exact .inl (readUnion_tooDeep_of_spells t hv.1 hp.2.1 hn ht hus _)
      · obtain ⟨hw, hs, ho⟩ := ends_of_kind (vs ++ rest) (u := d) (by simp [hcomma])
          (by simp [hcomma])
        have hread : readUnion (alt n) (us ++ d :: (vs ++ rest)) = .ok (t, d :: (vs ++ rest)) :=
          readUnion_of_spells hv.1 hp.2.1 hn (by omega) hus hw hs ho
        obtain ⟨hnew, hd⟩ := List.nodup_cons.1 hd
        have hlen : (vs ++ rest).length ≤ bound := by
          simp only [List.length_append, List.length_cons] at hb ⊢
          omega
        have hmore : TooDeep (readFields (alt n) opening bound (String.ofList m.text :: seen)
            (vs ++ rest)) :=
          fields_tooDeep (f :: fields) hd hv.2 hp.2.2 (fresh_of_notMem hnew hseen) hn
            (by omega) hvs rest hlen
        exact .inr ⟨t, d, vs ++ rest, hread, hcomma, hmore⟩
termination_by (sizeOf fields, 0)

end

/-! ## Texts -/

theorem spells_scan {t : TypePhrase} (hl : t.Legible) : Spells (Token.scan t.chars) t :=
  marks_of_append_nil (marks_chars t hl endsWord_nil)

/-- **Reading inverts writing up to the levels there are.** A canonical type phrase is read back
from its text if it takes no more than `maxLevels` levels, and it is refused as nested too deeply
if it takes more. -/
theorem parseAt_render (base : Int) (t : TypePhrase) (h : t.Canonical) :
    (t.cost ≤ maxLevels → parseAt base t.render.toList = .ok t) ∧
      (maxLevels < t.cost → ∃ fault, parseAt base t.render.toList = .error fault ∧
        fault.misparse.message = "type nested too deeply") := by
  have hspells := spells_scan (legible_of_plain t h.plain)
  rw [render_toList]
  constructor
  · intro hc
    have hread : readUnion (alt maxLevels) (Token.scan t.chars ++ []) = .ok (t, []) :=
      readUnion_of_spells h.valid h.plain (Nat.le_refl _) hc hspells noWord_nil noSuffix_nil
        noOr_nil
    rw [List.append_nil] at hread
    have hparse : parse t.chars = .ok t := ofTokens_ok_iff.2 hread
    exact mapError_ok_iff.2 hparse
  · intro hc
    have hdeep := readUnion_tooDeep_of_spells t h.valid h.plain (Nat.le_refl _) hc hspells []
    rw [List.append_nil] at hdeep
    obtain ⟨token, hparse⟩ : TooDeep (parse t.chars) := hdeep.bind _
    refine ⟨_, by rw [parseAt, hparse]; rfl, rfl⟩

/-! ## At the limit -/

theorem Canonical.suffixed {t : TypePhrase} (h : t.Canonical) (n : Nat) :
    (suffixed n t).Canonical := by
  induction n generalizing t with
  | zero => exact h
  | succ n ih => exact ih ⟨h.valid, h.plain⟩

theorem cost_suffixed {t : TypePhrase} (hu : t.isUnion = false) (n : Nat) :
    (suffixed n t).cost = n + t.cost := by
  induction n generalizing t with
  | zero => rw [suffixed, Nat.zero_add]
  | succ n ih =>
    rw [suffixed, ih rfl, cost, if_neg (by simp [hu])]
    omega

/-- A record with a slot that holds a choice. -/
def realmRecord : TypePhrase :=
  .record [("[[Realm]]", .union [.named "a Realm Record", .named "undefined"])]

theorem realmRecord_canonical : realmRecord.Canonical where
  valid := by simp [realmRecord, Valid, ValidFields, ValidAll, isUnion]; decide
  plain := by
    have hinner : "Realm".toList.all (!Token.isBracket ·) = true := by decide
    have hslot : IsPlainField "[[Realm]]" := by
      refine .inr ⟨"Realm".toList, by decide, fun c hc => ?_, rfl⟩
      simpa using List.all_eq_true.1 hinner c hc
    have hrealm : IsPlainName "a Realm Record" := ⟨by decide, by decide, by decide, by decide⟩
    have hundefined : IsPlainName "undefined" := ⟨by decide, by decide, by decide, by decide⟩
    exact ⟨hslot, ⟨hrealm, hundefined, trivial⟩, trivial⟩

/-- Lists of such records are read back when they are sixty-two deep, and no deeper. -/
theorem parseAt_render_realmRecord :
    parseAt 0 (suffixed 62 realmRecord).render.toList = .ok (suffixed 62 realmRecord) ∧
      ∃ fault, parseAt 0 (suffixed 63 realmRecord).render.toList = .error fault ∧
        fault.misparse.message = "type nested too deeply" := by
  have hcost : realmRecord.cost = 2 := by decide
  constructor
  · apply (parseAt_render 0 _ (realmRecord_canonical.suffixed 62)).1
    rw [cost_suffixed rfl, hcost]
    decide
  · apply (parseAt_render 0 _ (realmRecord_canonical.suffixed 63)).2
    rw [cost_suffixed rfl, hcost]
    decide

end Concordance.TypePhrase
