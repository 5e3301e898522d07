import Concordance.Proofs.TypePhrase.Complete
import Concordance.Proofs.TypePhrase.Scan

/-!
# Blanks around a type

Blanks before and after a text leave its marks as they are, and the marks alone decide which type a
text writes (`parse_iff_of_marks`). So a text writes the type that it writes without the blanks at
its ends (`parse_trim_iff`).
-/

namespace Concordance.TypePhrase

/-! ## Blanks after a text -/

/-- A text that ends in a character that is not blank does not reach into blanks that follow. -/
theorem prefix_append_blank_iff {w cs vs : List Char} (hw : Text.Ends w)
    (hvs : ∀ c ∈ vs, Text.isBlank c = true) : w <+: cs ++ vs ↔ w <+: cs := by
  refine ⟨?_, fun h => h.trans (List.prefix_append _ _)⟩
  rintro ⟨tail, heq⟩
  rcases List.append_eq_append_iff.1 heq with ⟨us, rfl, -⟩ | ⟨us, rfl, hus⟩
  · exact List.prefix_append _ _
  · -- what reaches into the blanks would end in one
    rcases List.eq_nil_or_concat us with rfl | ⟨us, d, rfl⟩
    · exact (List.append_nil cs).symm ▸ List.prefix_rfl
    · obtain ⟨ds, c, hends, hc⟩ := hw
      rw [List.concat_eq_append, ← List.append_assoc] at hends
      obtain rfl : d = c := by simpa using (List.append_inj' hends rfl).2
      rw [hvs d (by simp [hus])] at hc
      cases hc

namespace Token

section Blank

variable {vs : List Char} (hvs : ∀ c ∈ vs, Text.isBlank c = true)
include hvs

theorem slotTail?_append_blank (cs : List Char) : slotTail? (cs ++ vs) = slotTail? cs := by
  refine Option.ext fun n => ?_
  rw [slotTail?_eq_some_iff, slotTail?_eq_some_iff]
  refine exists_congr fun w => and_congr_right fun hw => ?_
  have hends : Text.Ends w := by
    obtain ⟨s, -, -, rfl⟩ := hw
    exact ⟨'[' :: '[' :: (s ++ [']']), ']', by simp, by decide⟩
  rw [← List.cons_append, prefix_append_blank_iff hends hvs]

theorem bracketsTail?_append_blank (cs : List Char) :
    bracketsTail? (cs ++ vs) = bracketsTail? cs := by
  refine Option.ext fun n => ?_
  rw [bracketsTail?_eq_some_iff, bracketsTail?_eq_some_iff]
  refine exists_congr fun w => and_congr_right fun hw => ?_
  have hends : Text.Ends w := by
    obtain ⟨s, -, rfl⟩ := hw
    exact ⟨'[' :: s, ']', by simp, by decide⟩
  rw [← List.cons_append, prefix_append_blank_iff hends hvs]

theorem first_append_blank (c : Char) (cs : List Char) : first c (cs ++ vs) = first c cs := by
  have hstop : vs.takeWhile isWordPart = [] := by
    cases vs with
    | nil => rfl
    | cons d vs => exact List.takeWhile_cons_of_neg (by simp [isWordPart, hvs d List.mem_cons_self])
  have hword : (cs ++ vs).takeWhile isWordPart = cs.takeWhile isWordPart := by
    rw [List.takeWhile_append, hstop, List.append_nil]
    split
    · next h => exact ((List.takeWhile_prefix _).eq_of_length h).symm
    · rfl
  simp only [first, slotTail?_append_blank hvs, bracketsTail?_append_blank hvs, hword]

end Blank

theorem scanFrom_append_blank {vs : List Char} (hvs : ∀ c ∈ vs, Text.isBlank c = true)
    (offset covered : Nat) (cs : List Char) :
    scanFrom offset covered (cs ++ vs) = scanFrom offset covered cs := by
  induction cs generalizing offset covered with
  | nil =>
    rw [List.nil_append, scanFrom]
    induction vs generalizing offset covered with
    | nil => rfl
    | cons c vs ih =>
      obtain ⟨hc, hvs⟩ := List.forall_mem_cons.1 hvs
      cases covered with
      | succ covered => exact ih hvs (offset + 1) covered
      | zero =>
        rw [scanFrom, if_pos hc]
        exact ih hvs (offset + 1) 0
  | cons c cs ih =>
    cases covered with
    | succ covered => exact ih (offset + 1) covered
    | zero =>
      rw [List.cons_append, scanFrom, scanFrom]
      split
      · exact ih (offset + 1) 0
      · rw [first_append_blank hvs]
        dsimp only
        rw [ih, List.take_append_of_le_length (first_le c cs)]

end Token

/-! ## The marks decide -/

section Marks

variable {ts ts' : List Token}

theorem isWord_of_mark {a b : Token} (h : a.mark = b.mark) (w : List Char) :
    a.isWord w = b.isWord w := by
  obtain ⟨hk, htext⟩ := mark_eq_iff.1 h
  rw [Token.isWord, Token.isWord, hk, htext]

theorem isPhraseWord_of_mark {a b : Token} (h : a.mark = b.mark) :
    isPhraseWord a = isPhraseWord b := by
  rw [isPhraseWord, isPhraseWord, isWord_of_mark h, (mark_eq_iff.1 h).1]

theorem IsListOf.congr (h : IsListOf ts) (heq : ts'.map Token.mark = ts.map Token.mark) :
    IsListOf ts' := by
  cases h with
  | plain hl ho =>
    obtain ⟨l, us, rfl, hlm, hus⟩ := List.map_eq_cons_iff.1 heq
    obtain ⟨o, vs, rfl, hom, hvs⟩ := List.map_eq_cons_iff.1 hus
    obtain rfl := List.map_eq_nil_iff.1 hvs
    obtain ⟨hlk, hlt⟩ := mark_eq_iff.1 hlm
    exact .plain ⟨hlk.trans hl.1, hlt.trans hl.2⟩ ((isWord_of_mark hom _).trans ho)
  | article ha hl ho =>
    obtain ⟨a, ws, rfl, ham, hws⟩ := List.map_eq_cons_iff.1 heq
    obtain ⟨l, us, rfl, hlm, hus⟩ := List.map_eq_cons_iff.1 hws
    obtain ⟨o, vs, rfl, hom, hvs⟩ := List.map_eq_cons_iff.1 hus
    obtain rfl := List.map_eq_nil_iff.1 hvs
    obtain ⟨hlk, hlt⟩ := mark_eq_iff.1 hlm
    rw [← isWord_of_mark ham, ← isWord_of_mark ham] at ha
    exact .article ha ⟨hlk.trans hl.1, hlt.trans hl.2⟩ ((isWord_of_mark hom _).trans ho)

theorem StartsListPhrase.congr (h : StartsListPhrase ts)
    (heq : ts'.map Token.mark = ts.map Token.mark) : StartsListPhrase ts' := by
  obtain ⟨ws, us, hw, rfl⟩ := h
  rw [List.map_append] at heq
  obtain ⟨ws', us', rfl, hws, -⟩ := List.map_eq_append_iff.1 heq
  exact ⟨ws', us', hw.congr hws, rfl⟩

theorem phraseOf_congr (heq : ts'.map Token.mark = ts.map Token.mark) :
    phraseOf ts' = phraseOf ts := by
  have htexts := congrArg (List.map Prod.snd) heq
  rw [List.map_map, List.map_map] at htexts
  exact congrArg (fun ws => TypePhrase.named (String.ofList ([' '].intercalate ws))) htexts

end Marks

mutual

theorem IsType.congr {last : Bool} {k : Nat} {ts ts' : List Token} {t : TypePhrase}
    (h : IsType last k ts t) (heq : ts'.map Token.mark = ts.map Token.mark) :
    IsType last k ts' t := by
  match h with
  | .plain h hn =>
    refine .plain (h.congr heq) ?_
    rintro e us rfl he
    obtain ⟨e', us', rfl, hem, hus⟩ := List.map_eq_cons_iff.1 heq.symm
    obtain ⟨rfl, hlast⟩ := hn e' us' rfl ((isWord_of_mark hem _).trans he)
    exact ⟨List.map_eq_nil_iff.1 hus.symm, hlast⟩
  | .either he h =>
    obtain ⟨e', us', rfl, hem, hus⟩ := List.map_eq_cons_iff.1 heq
    exact .either ((isWord_of_mark hem _).trans he) (h.congr hus)

theorem IsChoice.congr {k : Nat} {ts ts' : List Token} {alts : List TypePhrase}
    (h : IsChoice k ts alts) (heq : ts'.map Token.mark = ts.map Token.mark) :
    IsChoice k ts' alts := by
  match h with
  | .one h => exact .one (h.congr heq)
  | .more h ho hm =>
    rw [List.map_append, List.map_cons] at heq
    obtain ⟨us, rest, rfl, hus, hrest⟩ := List.map_eq_append_iff.1 heq
    obtain ⟨o, vs, rfl, hom, hvs⟩ := List.map_eq_cons_iff.1 hrest
    exact .more (h.congr hus) ((isWord_of_mark hom _).trans ho) (hm.congr hvs)

theorem IsAlternative.congr {k : Nat} {ts ts' : List Token} {t : TypePhrase}
    (h : IsAlternative k ts t) (heq : ts'.map Token.mark = ts.map Token.mark) :
    IsAlternative k ts' t := by
  match h with
  | @IsAlternative.mk _ us ss t h hs hk hl =>
    rw [List.map_append] at heq
    obtain ⟨us', ss', rfl, hus, hss⟩ := List.map_eq_append_iff.1 heq
    have hlength : ss'.length = ss.length := by simpa using congrArg List.length hss
    rw [← hlength]
    refine .mk (h.congr hus) (fun s hmem => ?_) (by omega) fun hne hstarts => ?_
    · obtain ⟨s', hmem', hs'⟩ := List.mem_map.1 (hss ▸ List.mem_map_of_mem hmem)
      exact (mark_eq_iff.1 hs').1.symm.trans (hs s' hmem')
    · refine hl ?_ (hstarts.congr hus.symm)
      rintro rfl
      exact hne (List.map_eq_nil_iff.1 hss)

theorem IsPrimary.congr {k : Nat} {ts ts' : List Token} {t : TypePhrase} (h : IsPrimary k ts t)
    (heq : ts'.map Token.mark = ts.map Token.mark) : IsPrimary k ts' t := by
  match h with
  | .empty ho hc =>
    obtain ⟨o, us, rfl, hom, hus⟩ := List.map_eq_cons_iff.1 heq
    obtain ⟨c, vs, rfl, hcm, hvs⟩ := List.map_eq_cons_iff.1 hus
    obtain rfl := List.map_eq_nil_iff.1 hvs
    exact .empty ((mark_eq_iff.1 hom).1.trans ho) ((mark_eq_iff.1 hcm).1.trans hc)
  | .record ho hc h hd =>
    rw [List.map_cons, List.map_append] at heq
    obtain ⟨o, us, c, rfl, hom, hus, hcm⟩ := exists_wrapped heq
    exact .record ((mark_eq_iff.1 hom).1.trans ho) ((mark_eq_iff.1 hcm).1.trans hc) (h.congr hus) hd
  | .parenthesized ho hc h =>
    rw [List.map_cons, List.map_append] at heq
    obtain ⟨o, us, c, rfl, hom, hus, hcm⟩ := exists_wrapped heq
    exact .parenthesized ((mark_eq_iff.1 hom).1.trans ho) ((mark_eq_iff.1 hcm).1.trans hc)
      (h.congr hus)
  | .list hw h =>
    rw [List.map_append] at heq
    obtain ⟨ws, us, rfl, hws, hus⟩ := List.map_eq_append_iff.1 heq
    exact .list (hw.congr hws) (h.congr hus)
  | .words hne hw hl =>
    rw [← phraseOf_congr heq]
    refine .words ?_ (fun w hmem => ?_) fun hstarts => hl (hstarts.congr heq.symm)
    · rintro rfl
      exact hne (List.map_eq_nil_iff.1 heq.symm)
    · obtain ⟨w', hmem', hw'⟩ := List.mem_map.1 (heq ▸ List.mem_map_of_mem hmem)
      exact (isPhraseWord_of_mark hw').symm.trans (hw w' hmem')

theorem IsFields.congr {k : Nat} {ts ts' : List Token} {fields : List (String × TypePhrase)}
    (h : IsFields k ts fields) (heq : ts'.map Token.mark = ts.map Token.mark) :
    IsFields k ts' fields := by
  match h with
  | .one hn hc h =>
    obtain ⟨n, us, rfl, hnm, hus⟩ := List.map_eq_cons_iff.1 heq
    obtain ⟨c, vs, rfl, hcm, hvs⟩ := List.map_eq_cons_iff.1 hus
    obtain ⟨hnk, hnt⟩ := mark_eq_iff.1 hnm
    rw [← hnk] at hn
    rw [← hnt]
    exact .one hn ((mark_eq_iff.1 hcm).1.trans hc) (h.congr hvs)
  | .more hn hc h hm hr =>
    obtain ⟨n, us, rfl, hnm, hus⟩ := List.map_eq_cons_iff.1 heq
    obtain ⟨c, vs, rfl, hcm, hvs⟩ := List.map_eq_cons_iff.1 hus
    rw [List.map_append, List.map_cons] at hvs
    obtain ⟨ts, rest, rfl, hts, hrest⟩ := List.map_eq_append_iff.1 hvs
    obtain ⟨m, ws, rfl, hmm, hws⟩ := List.map_eq_cons_iff.1 hrest
    obtain ⟨hnk, hnt⟩ := mark_eq_iff.1 hnm
    rw [← hnk] at hn
    rw [← hnt]
    exact .more hn ((mark_eq_iff.1 hcm).1.trans hc) (h.congr hts)
      ((mark_eq_iff.1 hmm).1.trans hm) (hr.congr hws)

end

/-- **The marks of a text decide which type it writes.** -/
theorem parse_iff_of_marks {w v : List Char} (h : marks w = marks v) {t : TypePhrase} :
    parse w = .ok t ↔ parse v = .ok t := by
  rw [parse_ok_iff, parse_ok_iff]
  exact ⟨fun hw => hw.congr h.symm, fun hv => hv.congr h⟩

theorem marks_trim (w : List Char) : marks (Text.trim w) = marks w := by
  obtain ⟨us, vs, hw, hus, hvs⟩ := Text.exists_eq_append_trim w
  have hleft : ∀ cs, marks (us ++ cs) = marks cs := by
    intro cs
    clear hw
    induction us with
    | nil => rfl
    | cons c us ih =>
      obtain ⟨hc, hus⟩ := List.forall_mem_cons.1 hus
      rw [List.cons_append, marks_blank hc, ih hus]
  have hright : marks (Text.trim w ++ vs) = marks (Text.trim w) := by
    rw [marks, Token.scan, Token.scanFrom_append_blank hvs]
    rfl
  conv => rhs; rw [hw, List.append_assoc, hleft, hright]

/-- **Blanks around a type change nothing.** -/
theorem parse_trim_iff {w : List Char} {t : TypePhrase} :
    parse (Text.trim w) = .ok t ↔ parse w = .ok t :=
  parse_iff_of_marks (marks_trim w)

end Concordance.TypePhrase
