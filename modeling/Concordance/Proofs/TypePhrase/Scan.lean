import Concordance.Proofs.Text.Place
import Concordance.Proofs.TypePhrase.Marks
import Mathlib.Data.List.TakeWhile

/-!
# The tokens of a text

The kind of a token says what its text is: a word is a run of word characters, a slot holds no
bracket between its own, a list suffix nothing but blanks, and every other token is one character.
A text is `Scanned` into blanks and such tokens, well written or not (`scanned_scanFrom`). So every
token of a text is well formed (`wellFormed_of_mem_scan`) and stands at its offset
(`standsAt_of_mem_scan`), a text without strays is scanned as if it stood alone (`marks_append`),
and what is to be shown of a text is shown along its tokens (`text_induction`).
-/

namespace Concordance.TypePhrase

namespace Token

/-- The text of a token is what its kind says. The mark of the end of a text is in no scan. -/
def WellFormed (t : Token) : Prop :=
  match t.kind with
  | .word => IsWordText t.text
  | .slot => IsSlotText t.text
  | .brackets => ∃ s, (∀ c ∈ s, Text.isBlank c = true) ∧ t.text = '[' :: (s ++ [']'])
  | .openBrace => t.text = ['{']
  | .closeBrace => t.text = ['}']
  | .openParen => t.text = ['(']
  | .closeParen => t.text = [')']
  | .colon => t.text = [':']
  | .comma => t.text = [',']
  | .stray => t.text = ['['] ∨ t.text = [']']
  | .stop => False

theorem WellFormed.isWordText {t : Token} (h : t.WellFormed) (hk : t.kind = .word) :
    IsWordText t.text := by
  rwa [WellFormed, hk] at h

theorem WellFormed.isSlotText {t : Token} (h : t.WellFormed) (hk : t.kind = .slot) :
    IsSlotText t.text := by
  rwa [WellFormed, hk] at h

/-! ## One token -/

/-- A slot is found where there is one. -/
theorem slotTail?_eq_some_iff {rest : List Char} {n : Nat} : slotTail? rest = some n ↔
    ∃ w, IsSlotText w ∧ w <+: '[' :: rest ∧ w.length = n + 1 := by
  constructor
  · intro h
    unfold slotTail? at h
    split at h
    · next body =>
      have hbody := Text.append_drop_takeWhile (!isBracket ·) body
      have hinner : ∀ c ∈ body.takeWhile (!isBracket ·), isBracket c = false := fun c hc => by
        simpa using List.mem_takeWhile_imp hc
      dsimp only at h
      generalize body.takeWhile (!isBracket ·) = inner at h hbody hinner
      split at h
      · next c inner more hmore =>
        obtain rfl := Option.some.inj h
        refine ⟨_, ⟨c :: inner, List.cons_ne_nil c inner, hinner, rfl⟩, ⟨more, ?_⟩, by simp⟩
        rw [← hbody, hmore]
        simp
      · cases h
    · cases h
  · rintro ⟨_, ⟨s, hne, hs, rfl⟩, ⟨tail, heq⟩, hlength⟩
    obtain rfl : '[' :: (s ++ ']' :: ']' :: tail) = rest := by simpa using heq
    obtain rfl : s.length + 3 = n := by simpa using hlength
    exact slotTail?_append hne hs

/-- A list suffix is found where there is one. -/
theorem bracketsTail?_eq_some_iff {rest : List Char} {n : Nat} : bracketsTail? rest = some n ↔
    ∃ w, IsBracketsText w ∧ w <+: '[' :: rest ∧ w.length = n + 1 := by
  constructor
  · intro h
    unfold bracketsTail? at h
    split at h
    · next more htrim =>
      obtain rfl := Option.some.inj h
      have hrest : rest.takeWhile Text.isBlank ++ Text.trimLeft rest = rest :=
        List.takeWhile_append_dropWhile
      rw [htrim] at hrest
      refine ⟨_, ⟨rest.takeWhile Text.isBlank, fun c hc => List.mem_takeWhile_imp hc, rfl⟩,
        ⟨more, ?_⟩, by simp [Text.leading]⟩
      simpa using hrest
    · cases h
  · rintro ⟨_, ⟨s, hs, rfl⟩, ⟨tail, heq⟩, hlength⟩
    obtain rfl : s ++ ']' :: tail = rest := by simpa using heq
    obtain rfl : s.length + 1 = n := by simpa using hlength
    have hstarts : Text.Starts (']' :: tail) := ⟨']', tail, rfl, by decide⟩
    have htrim : Text.trimLeft (s ++ ']' :: tail) = ']' :: tail := by
      rw [Text.trimLeft_append hs, hstarts.trimLeft]
    have hlead : Text.leading (s ++ ']' :: tail) = s.length := by
      rw [Text.leading_append hs, hstarts.leading, Nat.add_zero]
    simp only [bracketsTail?, htrim, hlead]

theorem eq_take_of_prefix {c : Char} {w rest : List Char} {n : Nat} (h : w <+: c :: rest)
    (hlength : w.length = n + 1) : w = c :: rest.take n := by
  rw [← List.take_succ_cons, ← hlength]
  exact List.prefix_iff_eq_take.1 h

/-- The word that starts with a character goes on to the end of the run of word characters. -/
theorem isWordText_takeWhile {c : Char} (hc : isWordPart c = true) (rest : List Char) :
    IsWordText (c :: rest.take (rest.takeWhile isWordPart).length) := by
  rw [List.prefix_iff_eq_take.1 (List.takeWhile_prefix isWordPart) |>.symm]
  exact ⟨List.cons_ne_nil c _, List.forall_mem_cons.2 ⟨hc, fun d hd => List.mem_takeWhile_imp hd⟩⟩

/-- The token that starts with a character is well formed. -/
theorem wellFormed_first {c : Char} (hc : Text.isBlank c = false) (rest : List Char)
    (offset : Nat) :
    WellFormed ⟨(first c rest).1, c :: rest.take (first c rest).2, offset⟩ := by
  by_cases hw : isWordPart c = true
  · rw [first_of_isWordPart hw]
    exact isWordText_takeWhile hw rest
  · -- a character that is neither blank nor in a word is punctuation
    have hpunctuation : isPunctuation c = true := by simpa [isWordPart, hc] using hw
    simp only [isPunctuation, isBracket, Bool.or_eq_true, decide_eq_true_eq] at hpunctuation
    rcases hpunctuation with (((((rfl | rfl) | rfl) | rfl) | rfl) | rfl) | rfl | rfl
    case inr.inl =>
      rw [first, if_pos rfl]
      cases hslot : slotTail? rest with
      | some n =>
        obtain ⟨w, hw, hprefix, hlength⟩ := slotTail?_eq_some_iff.1 hslot
        exact eq_take_of_prefix hprefix hlength ▸ hw
      | none =>
        cases hbrackets : bracketsTail? rest with
        | some n =>
          obtain ⟨w, hw, hprefix, hlength⟩ := bracketsTail?_eq_some_iff.1 hbrackets
          exact eq_take_of_prefix hprefix hlength ▸ hw
        | none => exact .inl rfl
    case inr.inr => exact .inr rfl
    all_goals rfl

/-- A token that is a word goes on to the end of the run of word characters. -/
theorem endsWord_first {c : Char} (hc : Text.isBlank c = false) {rest : List Char}
    (hk : (first c rest).1 = .word) : EndsWord (rest.drop (first c rest).2) := by
  have hword := (wellFormed_first hc rest 0).isWordText hk
  rw [first_of_isWordPart (hword.2 c List.mem_cons_self), Text.drop_takeWhile]
  intro d hd
  have hnot := List.head?_dropWhile_not isWordPart rest
  rw [Option.mem_def.1 hd] at hnot
  simpa using hnot

theorem first_le (c : Char) (cs : List Char) : (first c cs).2 ≤ cs.length := by
  by_cases hc : c = '['
  · rw [first, if_pos hc]
    cases hslot : slotTail? cs with
    | some n =>
      obtain ⟨w, -, hprefix, hlength⟩ := slotTail?_eq_some_iff.1 hslot
      simpa [hlength] using hprefix.length_le
    | none =>
      cases hbrackets : bracketsTail? cs with
      | some n =>
        obtain ⟨w, -, hprefix, hlength⟩ := bracketsTail?_eq_some_iff.1 hbrackets
        simpa [hlength] using hprefix.length_le
      | none => exact Nat.zero_le _
  · have hword := (List.takeWhile_prefix isWordPart (l := cs)).length_le
    rw [first, if_neg hc]
    split_ifs <;> simp [hword]

/-! ## Scans -/

/-- A text that starts at an offset is scanned into tokens: it is made of blanks and of well-formed
tokens, and the marks of what stands behind a token do not depend on it. A word goes on as far as
word characters do. -/
inductive Scanned : (offset : Nat) → List Char → List Token → Prop
  | nil {offset : Nat} : Scanned offset [] []
  | blank {offset : Nat} {c : Char} {cs : List Char} {ts : List Token}
      (hc : Text.isBlank c = true) (h : Scanned (offset + 1) cs ts) : Scanned offset (c :: cs) ts
  | token {t : Token} {cs : List Char} {ts : List Token} (ht : t.WellFormed)
      (hend : t.kind = .word → EndsWord cs) (hmarks : marks (t.text ++ cs) = t.mark :: marks cs)
      (h : Scanned (t.offset + t.text.length) cs ts) : Scanned t.offset (t.text ++ cs) (t :: ts)

/-- Characters that a token covers are passed over. -/
theorem scanFrom_drop {covered : Nat} {cs : List Char} (h : covered ≤ cs.length) (offset : Nat) :
    scanFrom offset covered cs = scanFrom (offset + covered) 0 (cs.drop covered) := by
  induction cs generalizing offset covered with
  | nil =>
    obtain rfl := Nat.le_zero.1 h
    rfl
  | cons c cs ih =>
    cases covered with
    | zero => rfl
    | succ covered =>
      rw [scanFrom, ih (Nat.le_of_succ_le_succ h), List.drop_succ_cons, Nat.add_assoc,
        Nat.add_comm 1]

/-- **The scan of a text finds its tokens**, whether the text is well written or not. -/
theorem scanned_scanFrom (offset : Nat) (cs : List Char) :
    Scanned offset cs (scanFrom offset 0 cs) := by
  match cs with
  | [] => exact .nil
  | c :: cs =>
    rw [scanFrom]
    split
    · next hc => exact .blank hc (scanned_scanFrom (offset + 1) cs)
    · next hc =>
      have hblank : Text.isBlank c = false := by simpa using hc
      have hle := first_le c cs
      have hend : (first c cs).1 = .word → EndsWord (cs.drop (first c cs).2) :=
        endsWord_first hblank
      have ht := wellFormed_first hblank cs offset
      obtain ⟨k, n, hf⟩ : ∃ k n, first c cs = (k, n) := ⟨_, _, rfl⟩
      rw [hf] at hle hend ht ⊢
      have hsplit : c :: cs.take n ++ cs.drop n = c :: cs := by
        rw [List.cons_append, List.take_append_drop]
      have hlength : offset + 1 + n = offset + (c :: cs.take n).length := by
        rw [List.length_cons, List.length_take, Nat.min_eq_left hle]
        omega
      have hmarks : marks (c :: cs.take n ++ cs.drop n) =
          (k, c :: cs.take n) :: marks (cs.drop n) := by
        rw [hsplit, marks_token hblank hf]
      have hrest := scanned_scanFrom (offset + (c :: cs.take n).length) (cs.drop n)
      dsimp only
      rw [scanFrom_drop hle, hlength, ← hsplit]
      exact .token (t := ⟨k, c :: cs.take n, offset⟩) ht hend hmarks hrest
termination_by cs.length
decreasing_by
  all_goals
    simp only [List.length_drop, List.length_cons]
    omega

theorem scanned_scan (text : List Char) : Scanned 0 text (scan text) := scanned_scanFrom 0 text

theorem WellFormed.text_ne_nil {t : Token} (h : t.WellFormed) : t.text ≠ [] := by
  obtain ⟨kind, text, offset⟩ := t
  rintro rfl
  cases kind with
  | word => exact h.1 rfl
  | slot =>
    obtain ⟨s, -, -, heq⟩ := h
    cases heq
  | brackets =>
    obtain ⟨s, -, heq⟩ := h
    cases heq
  | stray => exact h.elim nofun nofun
  | stop => exact h
  | _ => cases h

section Scanned

variable {offset : Nat} {cs : List Char} {ts : List Token}

theorem Scanned.wellFormed (h : Scanned offset cs ts) : ∀ t ∈ ts, t.WellFormed := by
  induction h with
  | nil => simp
  | blank _ _ ih => exact ih
  | token ht _ _ _ ih => exact List.forall_mem_cons.2 ⟨ht, ih⟩

/-- The tokens of a part of a source stand in the source. -/
theorem Scanned.standsAt {source : List Char} (h : Scanned offset cs ts)
    (hcs : source.drop offset = cs) : ∀ t ∈ ts, Text.StandsAt source t.offset t.text := by
  induction h with
  | nil => simp
  | blank _ _ ih => exact ih (by rw [← List.drop_drop, hcs, List.drop_one, List.tail_cons])
  | @token t cs ts _ _ _ _ ih =>
    have hplace : Text.StandsAt source t.offset t.text := Text.standsAt_iff.2 ⟨cs, hcs.symm⟩
    exact List.forall_mem_cons.2 ⟨hplace, ih (by rw [← List.drop_drop, hcs, List.drop_left])⟩

end Scanned

/-- **Every token of a text is well formed.** -/
theorem wellFormed_of_mem_scan {cs : List Char} {t : Token} (h : t ∈ scan cs) : t.WellFormed :=
  (scanned_scan cs).wellFormed t h

/-- A token stands at its offset in the text. -/
theorem standsAt_of_mem_scan {cs : List Char} {t : Token} (h : t ∈ scan cs) :
    Text.StandsAt cs t.offset t.text ∧ t.text ≠ [] :=
  ⟨(scanned_scan cs).standsAt rfl t h, (wellFormed_of_mem_scan h).text_ne_nil⟩

theorem offset_le_of_mem_scanAll {cs : List Char} {t : Token} (h : t ∈ scanAll cs) :
    t.offset ≤ cs.length := by
  rcases List.mem_append.1 h with h | h
  · obtain ⟨hstands, hne⟩ := standsAt_of_mem_scan h
    exact Nat.le_of_add_right_le (hstands.le_length hne)
  · rw [List.mem_singleton.1 h]

end Token

/-! ## Texts in front of other texts -/

theorem marks_brackets {cs : List Char} (hcs : IsBracketsText cs) (rest : List Char) :
    marks (cs ++ rest) = (.brackets, cs) :: marks rest := by
  obtain ⟨s, hs, rfl⟩ := hcs
  have hslot : Token.slotTail? (s ++ ']' :: rest) = none := by
    cases s with
    | nil => rfl
    | cons c s =>
      have hne : c ≠ '[' := by
        rintro rfl
        exact absurd (hs _ List.mem_cons_self) (by decide)
      simp [Token.slotTail?, hne]
  have hbrackets : Token.bracketsTail? (s ++ ']' :: rest) = some (s.length + 1) :=
    Token.bracketsTail?_eq_some_iff.2 ⟨'[' :: (s ++ [']']), ⟨s, hs, rfl⟩, ⟨rest, by simp⟩, by simp⟩
  have hfirst : Token.first '[' (s ++ ']' :: rest) = (.brackets, s.length + 1) := by
    rw [Token.first, if_pos rfl, hslot, hbrackets]
  have hassoc : '[' :: (s ++ [']']) ++ rest = '[' :: ((s ++ [']']) ++ rest) := rfl
  have hlen : s.length + 1 = (s ++ [']']).length := by simp
  rw [hassoc, marks_token (by decide) (k := .brackets) (n := s.length + 1) (by simpa using hfirst),
    hlen, List.take_left, List.drop_left]

/-- A token is scanned whatever stands behind it, unless it is a stray that could be part of another
token, or a word that goes on. -/
theorem Token.WellFormed.marks_append {t : Token} (ht : t.WellFormed) (hk : t.kind ≠ .stray)
    {rest : List Char} (hrest : t.kind = .word → EndsWord rest) :
    marks (t.text ++ rest) = t.mark :: marks rest := by
  obtain ⟨kind, text, offset⟩ := t
  cases kind with
  | word => exact marks_word ht (hrest rfl)
  | slot => exact marks_slot ht rest
  | brackets => exact marks_brackets ht rest
  | stray => exact absurd rfl hk
  | stop => exact ht.elim
  | _ =>
    obtain rfl := ht
    exact marks_single (by decide) rfl

theorem EndsWord.append {w v : List Char} (hw : EndsWord w) (hv : EndsWord v) :
    EndsWord (w ++ v) := by
  cases w with
  | nil => exact hv
  | cons c w => exact endsWord_cons.2 (endsWord_cons.1 hw)

/-- **A text without strays is scanned as if it stood alone**, unless its last word goes on. -/
theorem marks_append {w rest : List Char} (hw : ∀ m ∈ marks w, m.1 ≠ .stray)
    (hrest : EndsWord rest) : marks (w ++ rest) = marks w ++ marks rest := by
  have h := Token.scanned_scan w
  rw [marks] at hw
  generalize Token.scan w = ts, 0 = offset at h hw
  induction h with
  | nil => rfl
  | blank hc _ ih => rw [List.cons_append, marks_blank hc, marks_blank hc, ih hw]
  | @token t cs ts ht hend hmarks _ ih =>
    obtain ⟨hk, hts⟩ := List.forall_mem_cons.1 hw
    rw [List.append_assoc, ht.marks_append hk fun hword => (hend hword).append hrest, ih hts,
      hmarks, List.cons_append]

/-- **A text is made of blanks and tokens.** What holds of the empty text and is kept when a blank
or a token is put before a text holds of every text. -/
@[elab_as_elim]
theorem text_induction {P : List Char → Prop} (nil : P [])
    (blank : ∀ c cs, Text.isBlank c = true → P cs → P (c :: cs))
    (token : ∀ (t : Token) cs, t.WellFormed → marks (t.text ++ cs) = t.mark :: marks cs → P cs →
      P (t.text ++ cs))
    (w : List Char) : P w := by
  have h := Token.scanned_scan w
  generalize Token.scan w = ts, 0 = offset at h
  induction h with
  | nil => exact nil
  | blank hc _ ih => exact blank _ _ hc ih
  | token ht _ hmarks _ ih => exact token _ _ ht hmarks ih

end Concordance.TypePhrase
