import Concordance.Proofs.TypePhrase.Scan
import Concordance.Proofs.TypePhrase.Spelling
import Mathlib.Data.List.Chain

/-!
# What a scan leaves out

The tokens of a text come in order and do not meet, each stands in the text at its offset, and only
blanks stand between them. A word is as long as it can be, so that a blank stands between two words
that follow each other: the words of a phrase are told apart by single spaces just as well
(`marks_words`). The main statement is `Token.scan_lossless`.
-/

namespace Concordance.TypePhrase

namespace Token

/-- Where a token ends. -/
def stop (t : Token) : Nat := t.offset + t.text.length

section Scanned

variable {offset : Nat} {cs : List Char} {ts : List Token}

theorem Scanned.le_offset (h : Scanned offset cs ts) : ∀ t ∈ ts, offset ≤ t.offset := by
  induction h with
  | nil => simp
  | blank _ _ ih => exact fun t ht => Nat.le_of_succ_le (ih t ht)
  | token _ _ _ _ ih =>
    exact List.forall_mem_cons.2 ⟨Nat.le_refl _, fun u hu => Nat.le_of_add_right_le (ih u hu)⟩

/-- The tokens come one after the other. -/
theorem Scanned.pairwise (h : Scanned offset cs ts) :
    ts.Pairwise fun t u => t.offset < u.offset ∧ t.stop ≤ u.offset := by
  induction h with
  | nil => exact .nil
  | blank _ _ ih => exact ih
  | @token t _ _ ht _ _ hrest ih =>
    have hpos := List.length_pos_iff.2 ht.text_ne_nil
    refine List.pairwise_cons.2 ⟨fun u hu => ?_, ih⟩
    have hle := hrest.le_offset u hu
    exact ⟨by omega, hle⟩

/-- A character is blank or stands in a token. -/
theorem Scanned.covers (h : Scanned offset cs ts) {i : Nat} {c : Char} (hi : cs[i]? = some c) :
    Text.isBlank c = true ∨ ∃ t ∈ ts, t.offset ≤ offset + i ∧ offset + i < t.stop := by
  induction h generalizing i with
  | nil => simp at hi
  | @blank offset d cs ts hd _ ih =>
    cases i with
    | zero =>
      obtain rfl : d = c := by simpa using hi
      exact .inl hd
    | succ i =>
      rw [← Nat.add_assoc, Nat.add_right_comm]
      exact ih (by simpa using hi)
  | @token t cs ts _ _ _ _ ih =>
    by_cases hlt : i < t.text.length
    · exact .inr ⟨t, List.mem_cons_self, Nat.le_add_right _ _, Nat.add_lt_add_left hlt _⟩
    · -- the character stands behind the token
      obtain ⟨j, rfl⟩ := Nat.exists_eq_add_of_le (Nat.le_of_not_lt hlt)
      rw [List.getElem?_append_right (Nat.le_add_right _ _), Nat.add_sub_cancel_left] at hi
      rw [← Nat.add_assoc]
      exact (ih hi).imp_right fun ⟨u, hu, hplace⟩ => ⟨u, List.mem_cons_of_mem _ hu, hplace⟩

/-- A word does not start right behind another one: a blank stands there. -/
theorem Scanned.blank_of_word {u : Token} (h : Scanned offset cs (u :: ts)) (hcs : EndsWord cs)
    (hu : u.kind = .word) :
    offset < u.offset ∧ ∃ c, cs.head? = some c ∧ Text.isBlank c = true := by
  generalize hus : u :: ts = us at h
  cases h with
  | nil => cases hus
  | blank hc h =>
    obtain rfl := hus
    exact ⟨h.le_offset u List.mem_cons_self, _, rfl, hc⟩
  | token ht _ _ _ =>
    obtain ⟨rfl, -⟩ := List.cons.inj hus
    obtain ⟨hne, hword⟩ := ht.isWordText hu
    obtain ⟨c, w, htext⟩ := List.exists_cons_of_ne_nil hne
    rw [htext, List.cons_append, endsWord_cons] at hcs
    rw [htext] at hword
    exact absurd (hword c List.mem_cons_self) (Bool.eq_false_iff.1 hcs)

/-- A blank stands between two words that follow each other. -/
theorem Scanned.blank_between {source : List Char} (h : Scanned offset cs ts)
    (hcs : source.drop offset = cs) :
    ts.IsChain fun t u => t.kind = .word → u.kind = .word →
      t.stop < u.offset ∧ ∃ c, source[t.stop]? = some c ∧ Text.isBlank c = true := by
  induction h with
  | nil => exact .nil
  | blank _ _ ih => exact ih (by rw [← List.drop_drop, hcs, List.drop_one, List.tail_cons])
  | @token t cs ts _ hend _ hrest ih =>
    have hnext : source.drop t.stop = cs := by rw [stop, ← List.drop_drop, hcs, List.drop_left]
    cases ts with
    | nil => exact .singleton _
    | cons u us =>
      refine .cons_cons (fun ht hu => ?_) (ih hnext)
      obtain ⟨hlt, c, hc, hblank⟩ := hrest.blank_of_word (hend ht) hu
      rw [← hnext, List.head?_drop] at hc
      exact ⟨hlt, c, hc, hblank⟩

end Scanned

/-- The mark of the end comes after all tokens. -/
theorem pairwise_scanAll (text : List Char) :
    (scanAll text).Pairwise fun t u => t.offset < u.offset ∧ t.stop ≤ u.offset := by
  refine List.pairwise_append.2
    ⟨(scanned_scan text).pairwise, List.pairwise_singleton .., fun t ht u hu => ?_⟩
  obtain rfl := List.mem_singleton.1 hu
  obtain ⟨hstands, hne⟩ := standsAt_of_mem_scan ht
  have hle := hstands.le_length hne
  have hpos := List.length_pos_iff.2 hne
  exact ⟨by dsimp only; omega, hle⟩

end Token

/-- No character of a word is blank or punctuation. -/
theorem isWordPart_iff {c : Char} : Token.isWordPart c = true ↔
    Text.isBlank c = false ∧ c ∉ ['{', '}', '(', ')', ':', ',', '[', ']'] := by
  simp [Token.isWordPart, Token.isPunctuation, Token.isBracket, and_assoc]

/-- Words with single spaces between them are scanned into these words. -/
theorem marks_words {ws : List Token} (h : ∀ w ∈ ws, w.kind = .word ∧ IsWordText w.text) :
    marks ([' '].intercalate (ws.map (·.text))) = ws.map Token.mark := by
  rcases eq_or_ne ws [] with rfl | hne
  · rfl
  · have hwords : ∀ v ∈ ws.map (·.text), IsWordText v :=
      List.forall_mem_map.2 fun v hv => (h v hv).2
    rw [marks_of_append_nil (marks_phrase (by simpa using hne) hwords endsWord_nil), List.map_map]
    exact List.map_congr_left fun v hv => Prod.ext (h v hv).1.symm rfl

namespace Token

/-- **A scan leaves nothing out but blanks.** The tokens of a text, the mark of its end after them,
come in order and do not meet. Each has a text, which stands in the text at its offset, and every
character that stands in none of them is blank. A stray is a square bracket, and a word has neither
blanks nor punctuation in it. A blank stands between two words that follow each other, and words of
the text with single spaces between them are scanned into the same words. -/
theorem scan_lossless (text : List Char) :
    scanAll text = scan text ++ [⟨.stop, [], text.length⟩] ∧
    (scanAll text).Pairwise (fun t u => t.offset < u.offset ∧ t.stop ≤ u.offset) ∧
    (∀ t ∈ scan text,
      t.kind ≠ .stop ∧ t.text ≠ [] ∧ Text.StandsAt text t.offset t.text) ∧
    (∀ i c, text[i]? = some c → (∀ t ∈ scan text, ¬(t.offset ≤ i ∧ i < t.stop)) →
      Text.isBlank c = true) ∧
    (∀ t ∈ scan text, t.kind = .stray → t.text = ['['] ∨ t.text = [']']) ∧
    (∀ t ∈ scan text, t.kind = .word → ∀ c ∈ t.text,
      Text.isBlank c = false ∧ c ∉ ['{', '}', '(', ')', ':', ',', '[', ']']) ∧
    (scan text).IsChain (fun t u => t.kind = .word → u.kind = .word →
      ∃ i c, t.stop ≤ i ∧ i < u.offset ∧ text[i]? = some c ∧ Text.isBlank c = true) ∧
    ∀ ws, ws ⊆ scan text → (∀ w ∈ ws, w.kind = .word) →
      marks ([' '].intercalate (ws.map (·.text))) = ws.map Token.mark := by
  have hscan := scanned_scan text
  refine ⟨rfl, pairwise_scanAll text, fun t ht => ?_, fun i c hi hno => ?_, fun t ht hk => ?_,
    fun t ht hk c hc => ?_, ?_, fun ws hws hk => ?_⟩
  · have hwf := wellFormed_of_mem_scan ht
    refine ⟨fun hk => ?_, (standsAt_of_mem_scan ht).2, (standsAt_of_mem_scan ht).1⟩
    rw [WellFormed, hk] at hwf
    exact hwf
  · refine (hscan.covers hi).resolve_right ?_
    rintro ⟨t, ht, hplace⟩
    rw [Nat.zero_add] at hplace
    exact hno t ht hplace
  · have hwf := wellFormed_of_mem_scan ht
    rwa [WellFormed, hk] at hwf
  · exact isWordPart_iff.1 (((wellFormed_of_mem_scan ht).isWordText hk).2 c hc)
  · refine (hscan.blank_between rfl).imp fun t u hgap ht hu => ?_
    obtain ⟨hlt, c, hc, hblank⟩ := hgap ht hu
    exact ⟨t.stop, c, Nat.le_refl _, hlt, hc, hblank⟩
  · exact marks_words fun w hw => ⟨hk w hw, (wellFormed_of_mem_scan (hws hw)).isWordText (hk w hw)⟩

/-- Words among brackets of all kinds, with blanks and punctuation in a slot. -/
def mixed : List Char := "a  B\x7b[[c, )]]:[ ]] or".toList

def mixedTokens : List Token :=
  [⟨.word, ['a'], 0⟩, ⟨.word, ['B'], 3⟩, ⟨.openBrace, ['{'], 4⟩, ⟨.slot, "[[c, )]]".toList, 5⟩,
    ⟨.colon, [':'], 13⟩, ⟨.brackets, "[ ]".toList, 14⟩, ⟨.stray, [']'], 17⟩,
    ⟨.word, "or".toList, 19⟩]

/-- A blank stands between the first two words, and the space before the last one, which no token
covers, is blank; the words are scanned again from their own phrase. -/
theorem scan_lossless_mixed :
    scan mixed = mixedTokens ∧
      (∃ i c, 1 ≤ i ∧ i < 3 ∧ mixed[i]? = some c ∧ Text.isBlank c = true) ∧
      Text.isBlank ' ' = true ∧ marks "a B or".toList =
        [(.word, ['a']), (.word, ['B']), (.word, "or".toList)] := by
  have hscan : scan mixed = mixedTokens := by decide +kernel
  obtain ⟨-, -, -, hblank, -, -, hchain, hwords⟩ := scan_lossless mixed
  rw [hscan] at hblank hchain hwords
  exact ⟨hscan, (List.isChain_cons_cons.1 hchain).1 rfl rfl, hblank 18 ' ' rfl (by decide),
    hwords (mixedTokens.filter (·.kind = .word)) (List.filter_subset_self _) (by decide)⟩

end Token

end Concordance.TypePhrase
