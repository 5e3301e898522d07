import Concordance.Proofs.Header.Phrase
import Concordance.Proofs.TypePhrase.Derived
import Concordance.Proofs.TypePhrase.Separators

/-!
# Brackets inside slots

A slot is one token of a type whatever stands in it, but the splitter sees the parentheses and
braces in a slot, and while one of these is open it passes over the brackets that close the slot.
Then these brackets stay open to the end, since a type has as many square brackets that close as
such that open. So in a list that is closed every slot closes what it opens, and its name is passed
over wherever it is written (`names_isPassed`).
-/

namespace Concordance.Header

/-! ## Inside a slot -/

open TypePhrase (Token)
open TypePhrase.Token (isBracket)

section Slot

variable {s : List Char} (hs : ∀ c ∈ s, isBracket c = false)

theorem stackAfter_append {c : Char} (hc : isBracket c = false) (pre base : List Char) :
    stackAfter (pre ++ ']' :: base) c = stackAfter pre c ++ ']' :: base := by
  have hne : ']' ≠ c := by
    rintro rfl
    revert hc
    decide
  rw [stackAfter, stackAfter]
  cases closer? c with
  | some k => rfl
  | none =>
    cases pre with
    | nil => simp [hne]
    | cons d pre =>
      by_cases hpop : isCloser c = true ∧ d = c
      · simp [hpop]
      · simp [hpop]

theorem bracket_notMem_stackAfter {c : Char} (hc : isBracket c = false) {stack : List Char}
    (h : ']' ∉ stack) : ']' ∉ stackAfter stack c := by
  rw [stackAfter]
  cases hk : closer? c with
  | some k =>
    have hne : k ≠ ']' := by
      rintro rfl
      unfold closer? at hk
      split at hk
      · cases hk
      split at hk
      · cases hk
      split at hk
      · next hopen =>
        subst hopen
        revert hc
        decide
      · cases hk
    exact List.not_mem_cons_of_ne_of_not_mem hne.symm h
  | none =>
    dsimp only
    split
    · exact fun hmem => h (List.mem_of_mem_tail hmem)
    · exact h

include hs

/-- A text without square brackets does not reach below the square bracket it is in. -/
theorem after_inner (pre base : List Char) :
    after (pre ++ ']' :: base) s = after pre s ++ ']' :: base := by
  induction s generalizing pre with
  | nil => rfl
  | cons c s ih =>
    obtain ⟨hc, hs⟩ := List.forall_mem_cons.1 hs
    rw [after, List.foldl_cons, stackAfter_append hc]
    exact ih hs _

theorem bracket_notMem_after {stack : List Char} (h : ']' ∉ stack) : ']' ∉ after stack s := by
  induction s generalizing stack with
  | nil => exact h
  | cons c s ih =>
    obtain ⟨hc, hs⟩ := List.forall_mem_cons.1 hs
    exact ih hs (bracket_notMem_stackAfter hc h)

/-- Nothing is cut inside a square bracket. -/
theorem uncut_inner (pre base : List Char) : Uncut (pre ++ ']' :: base) s := by
  induction s generalizing pre with
  | nil => trivial
  | cons c s ih =>
    obtain ⟨hc, hs⟩ := List.forall_mem_cons.1 hs
    refine ⟨fun hnil => absurd hnil (by simp), ?_⟩
    rw [stackAfter_append hc]
    exact ih hs _

/-- A slot that leaves something open leaves its own brackets open too. -/
theorem after_slot (stack : List Char) : after stack ('[' :: '[' :: (s ++ [']', ']'])) =
    if after [] s = [] then stack else after [] s ++ ']' :: ']' :: stack := by
  have hnot : ']' ∉ after [] s := bracket_notMem_after hs (by simp)
  have hinner : after (']' :: ']' :: stack) s = after [] s ++ ']' :: ']' :: stack :=
    after_inner hs [] (']' :: stack)
  have hsplit : after stack ('[' :: '[' :: (s ++ [']', ']'])) =
      after (after (']' :: ']' :: stack) s) [']', ']'] := after_append
  rw [hsplit, hinner]
  split
  · next hnil =>
    rw [hnil]
    rfl
  · next hne =>
    obtain ⟨d, ds, hds⟩ := List.exists_cons_of_ne_nil hne
    have hd : d ≠ ']' := fun heq => hnot (by simp [hds, heq])
    rw [hds]
    have hstay : ∀ base, stackAfter (d :: base) ']' = d :: base := by
      intro base
      simp [stackAfter, closer?, isCloser, hd]
    rw [List.cons_append, after, List.foldl_cons, List.foldl_cons, List.foldl_nil, hstay, hstay]

theorem uncut_slot (stack : List Char) : Uncut stack ('[' :: '[' :: (s ++ [']', ']'])) := by
  have hopen : Uncut stack ['[', '['] := uncut_of_forall (by simp)
  have hclose : ∀ st, Uncut st [']', ']'] := fun st => uncut_of_forall (by simp)
  have hinner : Uncut (']' :: ']' :: stack) s := uncut_inner hs [] (']' :: stack)
  exact (uncut_append (w := ['[', '[']).2 ⟨hopen, uncut_append.2 ⟨hinner, hclose _⟩⟩)

end Slot

/-- A slot that closes what it opens is passed over; any other leaves its own brackets open. -/
theorem slot_cases {w : List Char} (hw : TypePhrase.IsSlotText w) :
    (after [] w = [] ∧ ∀ stack, after stack w = stack ∧ Passes stack w) ∨
      after [] w ≠ [] ∧ ∀ stack : List Char, stack.count ']' < (after stack w).count ']' := by
  obtain ⟨s, -, hs, rfl⟩ := hw
  by_cases hnil : after [] s = []
  · have hafter : ∀ stack, after stack ('[' :: '[' :: (s ++ [']', ']'])) = stack := by
      intro stack
      rw [after_slot hs, if_pos hnil]
    exact .inl ⟨hafter [], fun stack =>
      ⟨hafter stack, passes_of_uncut (uncut_slot hs stack) (hafter stack)⟩⟩
  · have hafter : ∀ stack, after stack ('[' :: '[' :: (s ++ [']', ']'])) =
        after [] s ++ ']' :: ']' :: stack := by
      intro stack
      rw [after_slot hs, if_neg hnil]
    refine .inr ⟨by simp [hafter], fun stack => ?_⟩
    rw [hafter, List.count_append, List.count_cons_self, List.count_cons_self]
    omega

/-! ## Counting square brackets -/

theorem isInert_of_isBlank {c : Char} (h : Text.isBlank c = true) : IsInert c :=
  isInert_of_class (by decide) h

/-- No token closes more square brackets than it opens, and a slot that closes as many as it opens
closes all that it opens. -/
theorem count_after_token {t : Token} (ht : t.WellFormed) (hk : t.kind ≠ .stray)
    (stack : List Char) : stack.count ']' ≤ (after stack t.text).count ']' ∧
      ((after stack t.text).count ']' = stack.count ']' → t.kind = .slot →
        after [] t.text = []) := by
  obtain ⟨kind, text, offset⟩ := t
  have hsingle : ∀ c : Char, c ≠ '[' → c ≠ ']' →
      stack.count ']' ≤ (after stack [c]).count ']' := by
    intro c hopen hclose
    rw [after, List.foldl_cons, List.foldl_nil, stackAfter]
    cases hc : closer? c with
    | some k => exact List.count_le_count_cons
    | none =>
      dsimp only
      split
      · next hhead =>
        cases stack with
        | nil => simp at hhead
        | cons d ds =>
          obtain rfl : d = c := by simpa using hhead.2
          simp [List.count_cons_of_ne hclose]
      · exact Nat.le_refl _
  have hpunctuation : ∀ c : Char, text = [c] → c ≠ '[' → c ≠ ']' → kind ≠ .slot →
      stack.count ']' ≤ (after stack text).count ']' ∧
        ((after stack text).count ']' = stack.count ']' → kind = .slot → after [] text = []) := by
    rintro c rfl hopen hclose hkind
    exact ⟨hsingle c hopen hclose, fun _ hslot => absurd hslot hkind⟩
  cases kind with
  | word =>
    have hword : TypePhrase.IsWordText text := ht
    have hinert : after stack text = stack := after_of_forall fun c hc =>
      TypePhrase.isInert_of_isWordPart (hword.2 c hc)
    exact ⟨by rw [hinert], by simp⟩
  | slot =>
    rcases slot_cases (w := text) ht with ⟨hnil, hpass⟩ | ⟨-, hlt⟩
    · exact ⟨Nat.le_of_eq (by rw [(hpass stack).1]), fun _ _ => hnil⟩
    · exact ⟨(hlt stack).le, fun heq => absurd heq (hlt stack).ne'⟩
  | brackets =>
    obtain ⟨s, hs, rfl⟩ : ∃ s, (∀ c ∈ s, Text.isBlank c = true) ∧ text = '[' :: (s ++ [']']) := ht
    have hafter : after stack ('[' :: (s ++ [']'])) = stack := by
      have hsplit : after stack ('[' :: (s ++ [']'])) = after (after (']' :: stack) s) [']'] :=
        after_append
      rw [hsplit, after_of_forall fun c hc => isInert_of_isBlank (hs c hc)]
      rfl
    exact ⟨by rw [hafter], by simp⟩
  | stray => exact absurd rfl hk
  | stop => exact ht.elim
  | openBrace => exact hpunctuation '\x7b' ht (by decide) (by decide) (by simp)
  | closeBrace => exact hpunctuation '}' ht (by decide) (by decide) (by simp)
  | openParen => exact hpunctuation '(' ht (by decide) (by decide) (by simp)
  | closeParen => exact hpunctuation ')' ht (by decide) (by decide) (by simp)
  | colon => exact hpunctuation ':' ht (by decide) (by decide) (by simp)
  | comma => exact hpunctuation ',' ht (by decide) (by decide) (by simp)

/-- No text without stray brackets closes more square brackets than it opens; if it closes as many,
its slots close all that they open. -/
theorem count_after_text (w : List Char) (hw : ∀ m ∈ TypePhrase.marks w, m.1 ≠ .stray)
    (stack : List Char) : stack.count ']' ≤ (after stack w).count ']' ∧
      ((after stack w).count ']' = stack.count ']' →
        ∀ m ∈ TypePhrase.marks w, m.1 = .slot → after [] m.2 = []) := by
  induction w using TypePhrase.text_induction generalizing stack with
  | nil => exact ⟨Nat.le_refl _, by simp⟩
  | blank c cs hc ih =>
    rw [TypePhrase.marks_blank hc] at hw ⊢
    rw [after_cons_of_isInert (isInert_of_isBlank hc)]
    exact ih hw stack
  | token t cs ht hmarks ih =>
    rw [hmarks] at hw ⊢
    obtain ⟨hk, hrest⟩ := List.forall_mem_cons.1 hw
    obtain ⟨hle, hpass⟩ := count_after_token ht hk stack
    obtain ⟨hle', hpass'⟩ := ih hrest (after stack t.text)
    rw [after_append]
    refine ⟨hle.trans hle', fun heq => List.forall_mem_cons.2 ⟨hpass ?_, hpass' ?_⟩⟩
    · exact Nat.le_antisymm (heq ▸ hle') hle
    · exact heq.trans (Nat.le_antisymm hle (heq ▸ hle'))

/-- **The names in a type of a list that is closed are passed over**, those of its slots
included. -/
theorem names_isPassed {text : List Char} {t : TypePhrase} (h : TypePhrase.parse text = .ok t)
    (hafter : after [] text = []) :
    t.Names TypePhrase.IsLegibleName TypePhrase.IsPassed := by
  have htype := TypePhrase.parse_ok_iff.1 h
  obtain ⟨-, hslots⟩ := count_after_text text htype.enclosed.regular []
  have hsupply : TypePhrase.Supply (fun w => w.WellFormed ∧ w ∈ Token.scan text)
      TypePhrase.IsLegibleName TypePhrase.IsPassed := by
    constructor
    · intro ts hne hts hl
      have hwords : ∀ w ∈ ts, w.WellFormed ∧ TypePhrase.isPhraseWord w = true :=
        fun w hw => ⟨(hts w hw).1.1, (hts w hw).2⟩
      exact TypePhrase.supply_wellFormed.phrase ts hne hwords hl
    · rintro n ⟨hn, hmem⟩ (hk | hk) stack
      · rw [String.toList_ofList]
        exact TypePhrase.passes_word (hn.isWordText hk).2
      · rw [String.toList_ofList]
        have hnil := hslots (by rw [hafter]) n.mark (List.mem_map_of_mem hmem) hk
        rcases slot_cases (hn.isSlotText hk) with ⟨-, hpass⟩ | ⟨hne, -⟩
        · exact (hpass stack).2
        · exact absurd hnil hne
  exact htype.names hsupply fun w hw => ⟨Token.wellFormed_of_mem_scan hw, hw⟩

end Concordance.Header
