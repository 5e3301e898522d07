import Concordance.Proofs.TypePhrase.Derived

/-!
# Keywords that are dropped

The word `either` is a keyword at the start of a choice, and a word like others in a name. A
derivation drops the keyword and keeps the word, so that its tokens hold the word at least as often
as the text of the type that they derive (`IsType.count_le`), and once more for every keyword. Hence
no keyword is dropped where a phrase is read back from its own text (`IsType.isChoice_of_spells`).
-/

namespace Concordance.TypePhrase

/-- The word `either`, as a keyword or in a name. -/
def isEitherMark (m : Mark) : Bool := m.1 = .word && m.2.map Char.toLower = "either".toList

theorem isEitherMark_mark (t : Token) : isEitherMark t.mark = isEither t := rfl

@[simp] theorem isEitherMark_of_ne {m : Mark} (h : m.1 ≠ .word) : isEitherMark m = false := by
  simp [isEitherMark, h]

/-- How often the word `either` is among the marks. -/
def eithers (ms : List Mark) : Nat := ms.countP isEitherMark

@[simp] theorem eithers_nil : eithers [] = 0 := rfl

@[simp] theorem eithers_append (ms ns : List Mark) : eithers (ms ++ ns) = eithers ms + eithers ns :=
  List.countP_append

@[simp] theorem eithers_cons (m : Mark) (ms : List Mark) :
    eithers (m :: ms) = (isEitherMark m).toNat + eithers ms := by
  rw [eithers, List.countP_cons, Nat.add_comm]
  cases isEitherMark m <;> rfl

/-! ## In the spelling of a type -/

theorem eithers_alternativeSpelling (ts : List TypePhrase) :
    eithers (alternativeSpelling ts) = eithers (ts.flatMap spelling) := by
  induction ts with
  | nil => rfl
  | cons t ts ih =>
    have hor : isEitherMark (wordMark "or".toList) = false := by decide
    rw [alternativeSpelling, eithers_append, List.flatMap_cons, eithers_append, ← ih]
    cases ts with
    | nil => rfl
    | cons u ts =>
      rw [List.isEmpty_cons, if_neg (by simp), eithers_cons, hor, Bool.toNat_false, Nat.zero_add]

theorem eithers_alternatives (t : TypePhrase) :
    eithers (t.alternatives.flatMap spelling) = eithers t.spelling := by
  cases t with
  | union ts => exact (eithers_alternativeSpelling ts).symm
  | _ => simp [alternatives]

theorem eithers_flatMap_alternatives (ts : List TypePhrase) :
    eithers ((ts.flatMap alternatives).flatMap spelling) = eithers (ts.flatMap spelling) := by
  induction ts with
  | nil => rfl
  | cons t ts ih =>
    rw [List.flatMap_cons, List.flatMap_append, eithers_append, ih, eithers_alternatives,
      List.flatMap_cons, eithers_append]

theorem eithers_either (t : TypePhrase) (ts : List TypePhrase) :
    eithers (either t ts).spelling = eithers ((t :: ts).flatMap spelling) := by
  rw [← eithers_flatMap_alternatives, either]
  generalize (t :: ts).flatMap alternatives = us
  unfold ofAlternatives
  split
  · rw [List.flatMap_cons, List.flatMap_nil, List.append_nil]
  · exact eithers_alternativeSpelling _

theorem eithers_list (t : TypePhrase) : eithers (list t).spelling = eithers t.spelling := by
  have hlist : isEitherMark (wordMark "List".toList) = false := by decide
  have hof : isEitherMark (wordMark "of".toList) = false := by decide
  rw [spelling]
  split <;> simp [hlist, hof, -String.reduceToList]

theorem eithers_suffixed (n : Nat) (t : TypePhrase) :
    eithers (suffixed n t).spelling = eithers t.spelling := by
  induction n generalizing t with
  | zero => rfl
  | succ n ih => rw [suffixed, ih, eithers_list]

theorem eithers_record (fields : List (String × TypePhrase)) :
    eithers (record fields).spelling = eithers (fieldSpelling fields) := by
  rw [spelling]
  simp

theorem eithers_fieldSpelling (name : String) (t : TypePhrase)
    (fields : List (String × TypePhrase)) : eithers (fieldSpelling ((name, t) :: fields)) =
      (isEitherMark (fieldMark name)).toNat + eithers t.spelling +
        eithers (fieldSpelling fields) := by
  rw [fieldSpelling]
  cases fields with
  | nil => simp [fieldSpelling]
  | cons f fields => simp [Nat.add_assoc]

/-! ## In the tokens that derive a type -/

/-- Well-formed words spell the phrase that they write. -/
theorem spelling_phraseOf {ts : List Token} (hne : ts ≠ []) (hts : ∀ w ∈ ts, w.WellFormed)
    (hk : ∀ w ∈ ts, w.kind = .word) : (phraseOf ts).spelling = ts.map Token.mark := by
  have htexts : ∀ w ∈ ts.map (·.text), IsWordText w := by
    intro w hw
    obtain ⟨u, hu, rfl⟩ := List.mem_map.1 hw
    exact (hts u hu).isWordText (hk u hu)
  rw [phraseOf, spelling, phraseWords_ofList (by simpa using hne) htexts, List.map_map]
  refine List.map_congr_left fun w hw => ?_
  rw [Function.comp_apply, Token.mark, hk w hw]
  rfl

/-- A well-formed token that names a field leaves the mark of this name. -/
theorem fieldMark_ofList {n : Token} (hn : n.WellFormed) (hk : n.kind = .word ∨ n.kind = .slot) :
    fieldMark (String.ofList n.text) = n.mark := by
  rw [fieldMark, String.toList_ofList, Token.mark]
  rcases hk with hk | hk
  · have hhead : n.text.head? ≠ some '[' := by
      intro heq
      have hpart := (hn.isWordText hk).2 '[' (List.mem_of_head? heq)
      revert hpart
      decide
    rw [if_neg hhead, hk]
  · obtain ⟨s, -, -, htext⟩ := hn.isSlotText hk
    rw [htext, List.head?_cons, if_pos rfl, hk]

mutual

theorem IsType.count_le {last : Bool} {k : Nat} {ts : List Token} {t : TypePhrase}
    (h : IsType last k ts t) (hts : ∀ w ∈ ts, w.WellFormed) :
    eithers t.spelling ≤ eithers (ts.map Token.mark) := by
  match h with
  | .plain h _ =>
    rw [eithers_either]
    exact h.count_le hts
  | .either _ h =>
    have hle := h.count_le (List.forall_mem_cons.1 hts).2
    rw [eithers_either, List.map_cons, eithers_cons]
    omega

theorem IsChoice.count_le {k : Nat} {ts : List Token} {alts : List TypePhrase}
    (h : IsChoice k ts alts) (hts : ∀ w ∈ ts, w.WellFormed) :
    eithers (alts.flatMap spelling) ≤ eithers (ts.map Token.mark) := by
  match h with
  | .one h =>
    rw [List.flatMap_cons, List.flatMap_nil, List.append_nil]
    exact h.count_le hts
  | .more h _ hm =>
    obtain ⟨hfirst, hmore⟩ := List.forall_mem_append.1 hts
    have hle := h.count_le hfirst
    have hle' := hm.count_le (List.forall_mem_cons.1 hmore).2
    rw [List.map_append, List.map_cons, eithers_append, eithers_cons, List.flatMap_cons,
      eithers_append]
    omega

theorem IsAlternative.count_le {k : Nat} {ts : List Token} {t : TypePhrase}
    (h : IsAlternative k ts t) (hts : ∀ w ∈ ts, w.WellFormed) :
    eithers t.spelling ≤ eithers (ts.map Token.mark) := by
  match h with
  | .mk h _ _ _ =>
    have hle := h.count_le (List.forall_mem_append.1 hts).1
    rw [eithers_suffixed, List.map_append, eithers_append]
    omega

theorem IsPrimary.count_le {k : Nat} {ts : List Token} {t : TypePhrase} (h : IsPrimary k ts t)
    (hts : ∀ w ∈ ts, w.WellFormed) : eithers t.spelling ≤ eithers (ts.map Token.mark) := by
  match h with
  | .empty _ _ => exact Nat.zero_le _
  | .record _ _ h _ =>
    have hle := h.count_le (List.forall_mem_append.1 (List.forall_mem_cons.1 hts).2).1
    rw [eithers_record, List.map_cons, eithers_cons, List.map_append, eithers_append]
    omega
  | .parenthesized _ _ h =>
    have hle := h.count_le (List.forall_mem_append.1 (List.forall_mem_cons.1 hts).2).1
    rw [List.map_cons, eithers_cons, List.map_append, eithers_append]
    omega
  | .list _ h =>
    have hle := h.count_le (List.forall_mem_append.1 hts).2
    rw [eithers_list, List.map_append, eithers_append]
    omega
  | .words hne hwords _ =>
    rw [spelling_phraseOf hne hts fun w hw => (isPhraseWord_iff.1 (hwords w hw)).1]

theorem IsFields.count_le {k : Nat} {ts : List Token} {fields : List (String × TypePhrase)}
    (h : IsFields k ts fields) (hts : ∀ w ∈ ts, w.WellFormed) :
    eithers (fieldSpelling fields) ≤ eithers (ts.map Token.mark) := by
  have hrest := fun w hw => hts w (List.mem_of_mem_tail (List.mem_of_mem_tail hw))
  match h with
  | .one hn _ h =>
    have hle := h.count_le hrest
    rw [eithers_fieldSpelling, fieldMark_ofList (hts _ List.mem_cons_self) hn]
    simp only [List.map_cons, eithers_cons, fieldSpelling, eithers_nil]
    omega
  | .more hn _ h _ hr =>
    obtain ⟨hfirst, hmore⟩ := List.forall_mem_append.1 hrest
    have hle := h.count_le hfirst
    have hle' := hr.count_le (List.forall_mem_cons.1 hmore).2
    rw [eithers_fieldSpelling, fieldMark_ofList (hts _ List.mem_cons_self) hn]
    simp only [List.map_cons, List.map_append, eithers_cons, eithers_append]
    omega

end

/-- No keyword is dropped where a type is read back from its spelling. -/
theorem IsType.isChoice_of_spells {last : Bool} {k : Nat} {ts : List Token} {t : TypePhrase}
    (h : IsType last k ts t) (hts : ∀ w ∈ ts, w.WellFormed) (hs : Spells ts t) :
    ∃ a alts, t = TypePhrase.either a alts ∧ IsChoice k ts (a :: alts) ∧
      ∀ e us, ts = e :: us → isEither e = true → us = [] ∧ last = true := by
  cases h with
  | plain h hn => exact ⟨_, _, rfl, h, hn⟩
  | either he h =>
    have hle := h.count_le (List.forall_mem_cons.1 hts).2
    rw [← eithers_either, ← hs, List.map_cons, eithers_cons, isEitherMark_mark, he] at hle
    exact absurd hle (by simp)

end Concordance.TypePhrase
