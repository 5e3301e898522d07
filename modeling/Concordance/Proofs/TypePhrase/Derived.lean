import Concordance.Proofs.TypePhrase.Scan
import Concordance.Proofs.TypePhrase.Levels
import Concordance.Proofs.TypePhrase.Valid

/-!
# What a derived type is made of

The names of a type are made of the tokens that derive it: a name of words is a phrase of them, and
the name of a field is one of them. So what holds of all such phrases and tokens holds of the names
in the type (`IsType.names`). The tokens of a text are well formed, hence the type that a text
writes is valid (`valid_of_parse`) and legible (`legible_of_parse`), however the text is spaced.
-/

namespace Concordance.TypePhrase

/-! ## Names -/

section Names

variable {P Q : String → Prop}

theorem alternativeNames_iff {ts : List TypePhrase} :
    AlternativeNames P Q ts ↔ ∀ t ∈ ts, t.Names P Q := by
  induction ts with
  | nil => simp [AlternativeNames]
  | cons t ts ih => simp [AlternativeNames, ih]

theorem Names.alternative {t u : TypePhrase} (h : t.Names P Q) (hu : u ∈ t.alternatives) :
    u.Names P Q := by
  cases t with
  | union ts => exact alternativeNames_iff.1 h u hu
  | _ =>
    obtain rfl := List.mem_singleton.1 hu
    exact h

theorem names_ofAlternatives {ts : List TypePhrase} (h : ∀ t ∈ ts, t.Names P Q) :
    (ofAlternatives ts).Names P Q := by
  unfold ofAlternatives
  split
  · next t => exact h t List.mem_cons_self
  · exact alternativeNames_iff.2 h

theorem names_either {t : TypePhrase} {ts : List TypePhrase}
    (h : AlternativeNames P Q (t :: ts)) : (either t ts).Names P Q := by
  refine names_ofAlternatives fun u hu => ?_
  obtain ⟨v, hv, hu⟩ := List.mem_flatMap.1 hu
  exact (alternativeNames_iff.1 h v hv).alternative hu

theorem names_suffixed {t : TypePhrase} (h : t.Names P Q) (n : Nat) :
    (suffixed n t).Names P Q := by
  induction n generalizing t with
  | zero => exact h
  | succ n ih => exact ih h

/-- Tokens of a kind `W` make names that satisfy `P` when they are the words of a phrase, and a
token that names a field satisfies `Q`. -/
structure Supply (W : Token → Prop) (P Q : String → Prop) : Prop where
  phrase : ∀ ts : List Token, ts ≠ [] → (∀ w ∈ ts, W w ∧ isPhraseWord w = true) →
    ¬StartsListPhrase ts → (phraseOf ts).Names P Q
  field : ∀ n : Token, W n → n.kind = .word ∨ n.kind = .slot → Q (String.ofList n.text)

variable {W : Token → Prop}

mutual

theorem IsType.names {last : Bool} {k : Nat} {ts : List Token} {t : TypePhrase}
    (h : IsType last k ts t) (hW : Supply W P Q) (hts : ∀ w ∈ ts, W w) : t.Names P Q := by
  match h with
  | .plain h _ => exact names_either (h.names hW hts)
  | .either _ h => exact names_either (h.names hW fun w hw => hts w (List.mem_cons_of_mem _ hw))

theorem IsChoice.names {k : Nat} {ts : List Token} {alts : List TypePhrase}
    (h : IsChoice k ts alts) (hW : Supply W P Q) (hts : ∀ w ∈ ts, W w) :
    AlternativeNames P Q alts := by
  match h with
  | .one h => exact ⟨h.names hW hts, trivial⟩
  | .more h _ hm =>
    obtain ⟨hfirst, hmore⟩ := List.forall_mem_append.1 hts
    exact ⟨h.names hW hfirst, hm.names hW fun w hw => hmore w (List.mem_cons_of_mem _ hw)⟩

theorem IsAlternative.names {k : Nat} {ts : List Token} {t : TypePhrase}
    (h : IsAlternative k ts t) (hW : Supply W P Q) (hts : ∀ w ∈ ts, W w) : t.Names P Q := by
  match h with
  | .mk h _ _ _ => exact names_suffixed (h.names hW (List.forall_mem_append.1 hts).1) _

theorem IsPrimary.names {k : Nat} {ts : List Token} {t : TypePhrase} (h : IsPrimary k ts t)
    (hW : Supply W P Q) (hts : ∀ w ∈ ts, W w) : t.Names P Q := by
  match h with
  | .empty _ _ => trivial
  | .record _ _ h _ =>
    exact h.names hW fun w hw => hts w (List.mem_cons_of_mem _ (List.mem_append_left _ hw))
  | .parenthesized _ _ h =>
    exact h.names hW fun w hw => hts w (List.mem_cons_of_mem _ (List.mem_append_left _ hw))
  | .list _ h => exact h.names hW (List.forall_mem_append.1 hts).2
  | .words hne hwords hl => exact hW.phrase ts hne (fun w hw => ⟨hts w hw, hwords w hw⟩) hl

theorem IsFields.names {k : Nat} {ts : List Token} {fields : List (String × TypePhrase)}
    (h : IsFields k ts fields) (hW : Supply W P Q) (hts : ∀ w ∈ ts, W w) :
    FieldNames P Q fields := by
  match h with
  | .one hn _ h =>
    obtain ⟨hname, hts⟩ := List.forall_mem_cons.1 hts
    exact ⟨hW.field _ hname hn, h.names hW (List.forall_mem_cons.1 hts).2, trivial⟩
  | .more hn _ h _ hr =>
    obtain ⟨hname, hts⟩ := List.forall_mem_cons.1 hts
    obtain ⟨hfirst, hmore⟩ := List.forall_mem_append.1 (List.forall_mem_cons.1 hts).2
    exact ⟨hW.field _ hname hn, h.names hW hfirst, hr.names hW (List.forall_mem_cons.1 hmore).2⟩

end

end Names

/-! ## Words of a phrase -/

section Phrase

variable {ts : List Token}

theorem isPhraseWord_iff {w : Token} :
    isPhraseWord w = true ↔ w.kind = .word ∧ w.isWord "or".toList = false := by
  simp [isPhraseWord]

/-- Tokens whose texts begin like a list phrase do so themselves, if they are words. -/
theorem startsListPhrase_of_beginsListPhrase (hk : ∀ w ∈ ts, w.kind = .word)
    (h : beginsListPhrase (ts.map (·.text)) = true) : StartsListPhrase ts := by
  have hlist : ∀ us : List Token, (∀ w ∈ us, w.kind = .word) →
      beginsListOf (us.map (·.text)) = true →
      ∃ l o vs, us = l :: o :: vs ∧ (l.kind = .word ∧ l.text = "List".toList) ∧
        o.isWord "of".toList = true := by
    intro us hus h
    match us with
    | [] => cases h
    | [_] => cases h
    | l :: o :: vs =>
      simp only [List.map_cons, beginsListOf, Bool.and_eq_true, decide_eq_true_eq] at h
      refine ⟨l, o, vs, rfl, ⟨hus l (by simp), h.1⟩, ?_⟩
      rw [Token.isWord, hus o (by simp), h.2]
      decide
  cases ts with
  | nil => cases h
  | cons a us =>
    rw [List.map_cons, beginsListPhrase, Bool.or_eq_true, Bool.and_eq_true, Bool.or_eq_true,
      ← List.map_cons (f := Token.text)] at h
    rcases h with h | ⟨ha, h⟩
    · obtain ⟨l, o, vs, heq, hl, ho⟩ := hlist (a :: us) hk h
      exact ⟨[l, o], vs, .plain hl ho, heq⟩
    · obtain ⟨l, o, vs, rfl, hl, ho⟩ := hlist us (fun w hw => hk w (List.mem_cons_of_mem _ hw)) h
      have hword : a.isWord "a".toList = true ∨ a.isWord "an".toList = true := by
        simpa [Token.isWord, hk a List.mem_cons_self] using ha
      exact ⟨[a, l, o], vs, .article hword hl ho, rfl⟩

theorem space_notMem_of_isWordText {w : List Char} (h : IsWordText w) : ' ' ∉ w := by
  intro hmem
  have hspace := h.2 ' ' hmem
  revert hspace
  decide

/-- The words of a phrase that words write are these words. -/
theorem phraseWords_ofList {ws : List (List Char)} (hne : ws ≠ []) (hws : ∀ w ∈ ws, IsWordText w) :
    phraseWords (String.ofList ([' '].intercalate ws)) = ws := by
  rw [phraseWords, String.toList_ofList]
  exact List.splitOn_intercalate ' ' (fun w hw => space_notMem_of_isWordText (hws w hw)) hne

theorem allBlank_intercalate {ws : List (List Char)} (hne : ws ≠ [])
    (hws : ∀ w ∈ ws, IsWordText w) : Text.allBlank ([' '].intercalate ws) = false := by
  obtain ⟨w, ws, rfl⟩ := List.exists_cons_of_ne_nil hne
  obtain ⟨hwne, hw⟩ := hws w List.mem_cons_self
  obtain ⟨c, w, rfl⟩ := List.exists_cons_of_ne_nil hwne
  have hblank : Text.isBlank c = false := by
    simpa using (Bool.and_eq_true_iff.1 (hw c List.mem_cons_self)).1
  cases ws with
  | nil => simp [Text.allBlank, hblank]
  | cons v ws => simp [Text.allBlank, List.intercalate_cons_cons, hblank]

theorem IsLegibleName.allBlank {name : String} (h : IsLegibleName name) :
    Text.allBlank name.toList = false := by
  rw [← intercalate_phraseWords]
  exact allBlank_intercalate (phraseWords_ne_nil name) h.words

end Phrase

/-- Well-formed tokens make legible names. -/
theorem supply_wellFormed : Supply Token.WellFormed IsLegibleName IsPlainField where
  phrase := by
    intro ts hne hts hl
    have hkind : ∀ w ∈ ts, w.kind = .word := fun w hw => (isPhraseWord_iff.1 (hts w hw).2).1
    have htexts : ∀ w ∈ ts.map (·.text), IsWordText w := by
      intro w hw
      obtain ⟨u, hu, rfl⟩ := List.mem_map.1 hw
      exact (hts u hu).1.isWordText (hkind u hu)
    have hwords := phraseWords_ofList (by simpa using hne) htexts
    change IsLegibleName (String.ofList ([' '].intercalate (ts.map (·.text))))
    refine ⟨by rwa [hwords], ?_, ?_⟩
    · rw [hwords]
      intro w hw
      obtain ⟨u, hu, rfl⟩ := List.mem_map.1 hw
      have hor := (isPhraseWord_iff.1 (hts u hu).2).2
      simpa [Token.isWord, hkind u hu] using hor
    · rw [hwords, Bool.eq_false_iff]
      exact fun hbegins => hl (startsListPhrase_of_beginsListPhrase hkind hbegins)
  field := by
    intro n hn hkind
    unfold IsPlainField
    rw [String.toList_ofList]
    exact hkind.imp hn.isWordText hn.isSlotText

/-! ## Validity -/

theorem valid_suffixed {t : TypePhrase} (h : t.Valid) (n : Nat) : (suffixed n t).Valid := by
  induction n generalizing t with
  | zero => exact h
  | succ n ih => exact ih h

mutual

theorem IsType.valid {last : Bool} {k : Nat} {ts : List Token} {t : TypePhrase}
    (h : IsType last k ts t) (hts : ∀ w ∈ ts, w.WellFormed) : t.Valid := by
  match h with
  | .plain h _ => exact valid_either (validAll_iff.1 (h.valid hts))
  | .either _ h =>
    exact valid_either (validAll_iff.1 (h.valid (List.forall_mem_cons.1 hts).2))

theorem IsChoice.valid {k : Nat} {ts : List Token} {alts : List TypePhrase}
    (h : IsChoice k ts alts) (hts : ∀ w ∈ ts, w.WellFormed) : ValidAll alts := by
  match h with
  | .one h => exact ⟨h.valid hts, trivial⟩
  | .more h _ hm =>
    obtain ⟨hfirst, hmore⟩ := List.forall_mem_append.1 hts
    exact ⟨h.valid hfirst, hm.valid (List.forall_mem_cons.1 hmore).2⟩

theorem IsAlternative.valid {k : Nat} {ts : List Token} {t : TypePhrase}
    (h : IsAlternative k ts t) (hts : ∀ w ∈ ts, w.WellFormed) : t.Valid := by
  match h with
  | .mk h _ _ _ => exact valid_suffixed (h.valid (List.forall_mem_append.1 hts).1) _

theorem IsPrimary.valid {k : Nat} {ts : List Token} {t : TypePhrase} (h : IsPrimary k ts t)
    (hts : ∀ w ∈ ts, w.WellFormed) : t.Valid := by
  match h with
  | .empty _ _ => exact ⟨List.nodup_nil, trivial⟩
  | .record _ _ h hd =>
    obtain ⟨hinner, -⟩ := List.forall_mem_append.1 (List.forall_mem_cons.1 hts).2
    exact ⟨hd, h.valid hinner⟩
  | .parenthesized _ _ h =>
    exact h.valid (List.forall_mem_append.1 (List.forall_mem_cons.1 hts).2).1
  | .list _ h => exact h.valid (List.forall_mem_append.1 hts).2
  | .words hne hwords hl =>
    have hlegible : IsLegibleName _ :=
      supply_wellFormed.phrase ts hne (fun w hw => ⟨hts w hw, hwords w hw⟩) hl
    exact hlegible.allBlank

theorem IsFields.valid {k : Nat} {ts : List Token} {fields : List (String × TypePhrase)}
    (h : IsFields k ts fields) (hts : ∀ w ∈ ts, w.WellFormed) : ValidFields fields := by
  have hrest := fun w hw => hts w (List.mem_of_mem_tail (List.mem_of_mem_tail hw))
  match h with
  | .one _ _ h => exact ⟨h.valid hrest, trivial⟩
  | .more _ _ h _ hr =>
    obtain ⟨hfirst, hmore⟩ := List.forall_mem_append.1 hrest
    exact ⟨h.valid hfirst, hr.valid (List.forall_mem_cons.1 hmore).2⟩

end

/-! ## Texts -/

section Parse

variable {text : List Char} {t : TypePhrase} (h : parse text = .ok t)
include h

/-- The type that a text writes is valid at every depth. -/
theorem valid_of_parse : t.Valid :=
  (parse_ok_iff.1 h).valid fun _ => Token.wellFormed_of_mem_scan

/-- The names in the type that a text writes are words with single spaces between them. -/
theorem legible_of_parse : t.Legible :=
  (parse_ok_iff.1 h).names supply_wellFormed fun _ => Token.wellFormed_of_mem_scan

end Parse

end Concordance.TypePhrase
