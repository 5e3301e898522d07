import Concordance.Proofs.TypePhrase.Checked
import Concordance.Proofs.TypePhrase.Spacing
import Concordance.Proofs.TypePhrase.Stable

/-!
# Grouping in parentheses

Parentheses around the types of a text change nothing where there is a level left for them. What is
derived under some primaries is derived under fewer (`IsType.mono`), and apart from the word
`either` it does not matter what comes next (`isType_false_iff`); the marks between the parentheses
are those of the text (`marks_append`). So texts in parentheses write the choice between their types
(`parseAt_grouped`), which has the alternatives of these types in order. The main statement is
`grouping_invisible`.
-/

namespace Concordance.TypePhrase

/-! ## Fewer primaries around a phrase -/

mutual

theorem IsType.mono {last : Bool} {k k' : Nat} {ts : List Token} {t : TypePhrase}
    (h : IsType last k ts t) (hk : k' ≤ k) : IsType last k' ts t := by
  match h with
  | .plain h hn => exact .plain (h.mono hk) hn
  | .either he h => exact .either he (h.mono hk)

theorem IsChoice.mono {k k' : Nat} {ts : List Token} {alts : List TypePhrase}
    (h : IsChoice k ts alts) (hk : k' ≤ k) : IsChoice k' ts alts := by
  match h with
  | .one h => exact .one (h.mono hk)
  | .more h ho hm => exact .more (h.mono hk) ho (hm.mono hk)

theorem IsAlternative.mono {k k' : Nat} {ts : List Token} {t : TypePhrase}
    (h : IsAlternative k ts t) (hk : k' ≤ k) : IsAlternative k' ts t := by
  match h with
  | .mk h hs hlt hl => exact .mk (h.mono hk) hs (by omega) hl

theorem IsPrimary.mono {k k' : Nat} {ts : List Token} {t : TypePhrase} (h : IsPrimary k ts t)
    (hk : k' ≤ k) : IsPrimary k' ts t := by
  have hnext : k' + 1 ≤ k + 1 := Nat.succ_le_succ hk
  match h with
  | .empty ho hc => exact .empty ho hc
  | .record ho hc h hd => exact .record ho hc (h.mono hnext) hd
  | .parenthesized ho hc h => exact .parenthesized ho hc (h.mono hnext)
  | .list hw h => exact .list hw (h.mono hnext)
  | .words hne hw hl => exact .words hne hw hl

theorem IsFields.mono {k k' : Nat} {ts : List Token} {fields : List (String × TypePhrase)}
    (h : IsFields k ts fields) (hk : k' ≤ k) : IsFields k' ts fields := by
  match h with
  | .one hn hc h => exact .one hn hc (h.mono hk)
  | .more hn hc h hm hr => exact .more hn hc (h.mono hk) hm (hr.mono hk)

end

/-- The end of a text matters to the word `either` alone. -/
theorem isType_false_iff {k : Nat} {ts : List Token} {t : TypePhrase} :
    IsType false k ts t ↔ IsType true k ts t ∧ ∀ e, ts = [e] → isEither e = false := by
  constructor
  · intro h
    cases h with
    | plain h hn =>
      have hfalse : ∀ e us, ts = e :: us → isEither e = false := fun e us heq =>
        Bool.eq_false_iff.2 fun he => Bool.false_ne_true (hn e us heq he).2
      exact ⟨.plain h fun e us heq he => absurd he (Bool.eq_false_iff.1 (hfalse e us heq)),
        fun e => hfalse e []⟩
    | either he h => exact ⟨.either he h, fun e heq => absurd (List.cons.inj heq).2 h.ne_nil⟩
  · rintro ⟨h, halone⟩
    cases h with
    | plain h hn =>
      refine .plain h fun e us heq he => ?_
      obtain ⟨rfl, -⟩ := hn e us heq he
      exact absurd he (Bool.eq_false_iff.1 (halone e heq))
    | either he h => exact .either he h

/-! ## Texts in parentheses -/

/-- The text writes a type that can be put in parentheses: the text would write a type with one
level less, too, and it is not the word `either` alone, as no text with another first word is. This
word is a name where the text ends and the keyword in front of a closing parenthesis. -/
structure Groupable (w : List Char) (t : TypePhrase) : Prop where
  writes : parse w = .ok t
  room : ∃ u, ofTokens (maxLevels - 1) (Token.scan w) = .ok u
  not_either : ∀ e, Token.scan w = [e] → isEither e = false

/-- A text can be put in parentheses when it derives its type there. -/
theorem groupable_iff {w : List Char} {t : TypePhrase} :
    Groupable w t ↔ IsType false 1 (Token.scan w) t := by
  rw [isType_false_iff]
  constructor
  · rintro ⟨hw, ⟨u, hu⟩, halone⟩
    have hdeep : IsType true 1 (Token.scan w) u := (ofTokens_ok_iff_isType (by decide)).1 hu
    have hparse : parse w = .ok u := parse_ok_iff.2 (hdeep.mono (Nat.zero_le 1))
    obtain rfl := Except.ok.inj (hw.symm.trans hparse)
    exact ⟨hdeep, halone⟩
  · rintro ⟨h, halone⟩
    exact ⟨parse_ok_iff.2 (h.mono (Nat.zero_le 1)),
      ⟨t, (ofTokens_ok_iff_isType (by decide)).2 h⟩, halone⟩

/-- Between parentheses a text without strays has the marks that it has alone. -/
theorem marks_parenthesized_of_regular {w : List Char} (hw : ∀ m ∈ marks w, m.1 ≠ .stray)
    (rest : List Char) : marks (parenthesized true w ++ rest) =
      (.openParen, ['(']) :: (marks w ++ [(.closeParen, [')'])]) ++ marks rest :=
  marks_parenthesized (marks_append hw (endsWord_punctuation rfl rest))

/-- Tokens with these marks are an alternative. -/
theorem Groupable.isAlternative {w : List Char} {t : TypePhrase} (h : Groupable w t)
    {us : List Token}
    (hus : us.map Token.mark = (.openParen, ['(']) :: (marks w ++ [(.closeParen, [')'])])) :
    IsAlternative 0 us t := by
  obtain ⟨o, vs, c, rfl, ho, hvs, hc⟩ := exists_wrapped hus
  have htype : IsType false 1 vs t := (groupable_iff.1 h).congr hvs
  exact (IsPrimary.parenthesized (mark_eq_iff.1 ho).1 (mark_eq_iff.1 hc).1 htype).isAlternative
    (by decide)

/-- Texts in parentheses with `or` between them. -/
def grouped (ws : List (List Char)) : List Char :=
  " or ".toList.intercalate (ws.map (parenthesized true))

theorem grouped_singleton (w : List Char) : grouped [w] = parenthesized true w :=
  List.intercalate_singleton

theorem grouped_cons_cons (w v : List Char) (ws : List (List Char)) :
    grouped (w :: v :: ws) = parenthesized true w ++ (" or ".toList ++ grouped (v :: ws)) := by
  rw [grouped, List.map_cons, List.map_cons, List.intercalate_cons_cons, List.append_assoc]
  rfl

/-- Grouped texts write a choice between their types. -/
theorem isChoice_of_grouped {ws : List (List Char)} {ts : List TypePhrase}
    (h : List.Forall₂ Groupable ws ts) (hne : ws ≠ []) {us : List Token}
    (hus : us.map Token.mark = marks (grouped ws)) : IsChoice 0 us ts := by
  induction h generalizing us with
  | nil => exact absurd rfl hne
  | @cons w t ws ts hw h ih =>
    have hregular := (groupable_iff.1 hw).enclosed.regular
    cases h with
    | nil =>
      have hmarks := marks_of_append_nil (marks_parenthesized_of_regular hregular [])
      rw [grouped_singleton, hmarks] at hus
      exact .one (hw.isAlternative hus)
    | @cons v t' ws ts _ _ =>
      rw [grouped_cons_cons, marks_parenthesized_of_regular hregular, marks_or] at hus
      obtain ⟨vs, rest, rfl, hvs, hrest⟩ := List.map_eq_append_iff.1 hus
      obtain ⟨o, os, rfl, ho, hos⟩ := List.map_eq_cons_iff.1 hrest
      exact .more (hw.isAlternative hvs) (isOr_of_mark ho) (ih (List.cons_ne_nil v ws) hos)

/-- Grouped texts start with a parenthesis. -/
theorem scan_grouped (w : List Char) (ws : List (List Char)) :
    ∃ e us, Token.scan (grouped (w :: ws)) = e :: us ∧ isEither e = false := by
  obtain ⟨cs, hcs⟩ : ∃ cs, grouped (w :: ws) = '(' :: cs := by
    cases ws with
    | nil => exact ⟨_, grouped_singleton w⟩
    | cons v ws => exact ⟨_, grouped_cons_cons w v ws⟩
  exact ⟨_, _, by rw [hcs]; rfl, rfl⟩

/-- **Texts in parentheses write the choice between their types.** -/
theorem parseAt_grouped {ws : List (List Char)} {t : TypePhrase} {ts : List TypePhrase}
    (h : List.Forall₂ Groupable ws (t :: ts)) (base : Int) :
    parseAt base (grouped ws) = .ok (either t ts) := by
  cases h with
  | @cons w _ ws _ hw h =>
    have hchoice := isChoice_of_grouped (.cons hw h) (List.cons_ne_nil w ws) rfl
    exact (parseAt_ok_iff base _ _).2 (hchoice.isType (scan_grouped w ws))

/-! ## What parentheses take -/

/-- Tokens in one pair of parentheses are one alternative. -/
theorem IsType.of_parenthesized {last : Bool} {k : Nat} {o c : Token} {vs : List Token}
    {t : TypePhrase} (h : IsType last k (o :: (vs ++ [c])) t) (ho : o.kind = .openParen)
    (hc : c.kind = .closeParen) (hvs : Enclosed isComma (vs.map Token.mark)) :
    ∃ u, IsType false (k + 1) vs u := by
  have hwrap := hvs.tokens (o := o) (c := c) (by rw [ho]; rfl) (by rw [hc]; rfl)
  have hlast : ∀ s ∈ (o :: (vs ++ [c])).getLast?, s.kind ≠ .brackets := by
    rw [← List.cons_append, List.getLast?_concat]
    simp [hc]
  generalize hus : o :: (vs ++ [c]) = us at h hwrap hlast
  cases h with
  | either he _ =>
    rw [← (List.cons.inj hus).1, isEither_eq_false (by simp [ho])] at he
    cases he
  | plain h _ =>
    cases h with
    | one h =>
      obtain ⟨hprimary, -⟩ := h.isPrimary (.inr hlast)
      exact ⟨_, (hus ▸ hprimary).of_parenthesized ho⟩
    | more h hor _ =>
      -- the keyword would stand outside the parentheses
      rw [List.map_append, List.map_cons] at hwrap
      have hlt := (hwrap.inside _ _ _ rfl).2 (isSeparator_of_isOr hor)
      rw [h.enclosed.closed] at hlt
      exact absurd hlt (Int.lt_irrefl 0)

/-- **Parentheses around a type take one level and another text than the word `either`**, and
nothing else. -/
theorem parseAt_parenthesized_iff {w : List Char} {t : TypePhrase} (hw : parse w = .ok t)
    (base : Int) : parseAt base (parenthesized true w) = .ok t ↔ Groupable w t := by
  constructor
  · intro h
    have henclosed := (parse_ok_iff.1 hw).enclosed
    have hmarks := marks_of_append_nil (marks_parenthesized_of_regular henclosed.regular [])
    obtain ⟨o, vs, c, hscan, ho, hvs, hc⟩ := exists_wrapped hmarks
    have htype := (parseAt_ok_iff base _ _).1 h
    rw [hscan] at htype
    obtain ⟨u, hu⟩ := htype.of_parenthesized (mark_eq_iff.1 ho).1 (mark_eq_iff.1 hc).1
      (hvs ▸ henclosed)
    have hgroup : Groupable w u := groupable_iff.2 (hu.congr hvs.symm)
    obtain rfl := Except.ok.inj (hw.symm.trans hgroup.writes)
    exact hgroup
  · intro h
    have hparse := parseAt_grouped (.cons h .nil) base
    rwa [grouped_singleton, either_nil (valid_of_parse hw)] at hparse

/-- **Redundant grouping is invisible.** Between valid types there is a choice, which passes the
check of its constructor and has the alternatives of the types in order, so that it can be made in
two steps as well. A text that writes a type writes the same type in parentheses just when it would
write one with a level less, too, and is not the word `either` alone; and two such texts in
parentheses, with `or` between them, write the choice between their types. -/
theorem grouping_invisible :
    (∀ t ts, (∀ u ∈ t :: ts, u.Valid) → ∃ u, Checked.join t ts = .ok u ∧
      either? (t :: ts) = .ok u ∧ u.Valid ∧ u.alternatives = (t :: ts).flatMap alternatives) ∧
    (∀ ts us : List TypePhrase, ts ≠ [] → us ≠ [] → (∀ v ∈ ts ++ us, v.Valid) →
      either? (ts ++ us) = (do either? [← either? ts, ← either? us])) ∧
    (∀ w t base, parse w = .ok t → (parseAt base ('(' :: w ++ [')']) = .ok t ↔ Groupable w t)) ∧
    (∀ w v t u base, Groupable w t → Groupable v u → ∃ choice, either? [t, u] = .ok choice ∧
      parseAt base ('(' :: w ++ ") or (".toList ++ v ++ [')']) = .ok choice) := by
  refine ⟨fun t ts h => ?_, fun ts us => either?_append,
    fun w t base hw => parseAt_parenthesized_iff hw base, fun w v t u base hw hv => ⟨_, rfl, ?_⟩⟩
  · exact ⟨either t ts, Checked.join_of_valid h, rfl, valid_either h, alternatives_either h⟩
  · have hparse := parseAt_grouped (.cons hw (.cons hv .nil)) base
    rw [grouped_cons_cons, grouped_singleton] at hparse
    rw [← hparse]
    simp [parenthesized]

/-- A choice with a list phrase in it. -/
def listed : List Char := "A or List of B".toList

/-- A choice with its keyword and a list suffix in it. -/
def suffixedChoice : List Char := " either C or D[]".toList

def listedType : TypePhrase := .union [.named "A", .list (.named "B")]

def suffixedType : TypePhrase := .union [.named "C", .list (.named "D")]

/-- The four alternatives are found in order, whether the two choices are joined or written in
parentheses; and parentheses around one of them change nothing. -/
theorem grouping_invisible_lists :
    (∃ u, Checked.join listedType [suffixedType] = .ok u ∧ u.alternatives =
      [.named "A", .list (.named "B"), .named "C", .list (.named "D")]) ∧
    either? [listedType, suffixedType, listedType] =
      (do either? [← either? [listedType], ← either? [suffixedType, listedType]]) ∧
    parseAt 0 "(A or List of B)".toList = .ok listedType ∧
    ∃ choice, either? [listedType, suffixedType] = .ok choice ∧
      parseAt 7 "(A or List of B) or ( either C or D[])".toList = .ok choice := by
  have hlisted : parse listed = .ok listedType := by decide +kernel
  have hsuffixed : parse suffixedChoice = .ok suffixedType := by decide +kernel
  have hvalid : ∀ u ∈ [listedType, suffixedType, listedType], u.Valid := by
    simp only [List.forall_mem_cons, List.not_mem_nil, false_implies, implies_true, and_true]
    exact ⟨valid_of_parse hlisted, valid_of_parse hsuffixed, valid_of_parse hlisted⟩
  have hlonger : ∀ w, 1 < (Token.scan w).length → ∀ e, Token.scan w = [e] → isEither e = false := by
    intro w hlength e hscan
    rw [hscan] at hlength
    exact absurd hlength (Nat.lt_irrefl 1)
  have hgroup : Groupable listed listedType :=
    ⟨hlisted, ⟨listedType, by decide +kernel⟩, hlonger listed (by decide +kernel)⟩
  have hgroup' : Groupable suffixedChoice suffixedType :=
    ⟨hsuffixed, ⟨suffixedType, by decide +kernel⟩, hlonger suffixedChoice (by decide +kernel)⟩
  obtain ⟨hjoin, happend, hparse, hboth⟩ := grouping_invisible
  obtain ⟨u, hu, -, -, halternatives⟩ := hjoin listedType [suffixedType] fun v hv =>
    hvalid v (List.mem_of_mem_take (i := 2) hv)
  exact ⟨⟨u, hu, halternatives⟩,
    happend [listedType] [suffixedType, listedType] (List.cons_ne_nil _ _) (List.cons_ne_nil _ _)
      hvalid,
    (hparse listed listedType 0 hlisted).2 hgroup,
    hboth listed suffixedChoice listedType suffixedType 7 hgroup hgroup'⟩

end Concordance.TypePhrase
