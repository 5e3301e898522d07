import Concordance.Proofs.Header.Brackets
import Concordance.Proofs.TypePhrase.Complete

/-!
# What a type leaves open

The reader of types matches the brackets of tokens and takes a slot as a whole; the splitter matches
the brackets of characters. A type is `Nested` for both: it is made of slots, of texts without
brackets, and of brackets around such texts, with commas only inside. So the splitter never cuts a
type (`uncut_of_parse`), and after a type it waits for nothing, unless a slot of the type leaves a
bracket open (`after_eq_nil_iff`).
-/

namespace Concordance.Header

open TypePhrase (Token IsType IsChoice IsAlternative IsPrimary IsFields marks)

/-- A text made of slots with a property, of texts without brackets, and of brackets around such
texts; `inner` says whether it stands in brackets itself, so that it may have commas. -/
inductive Nested (S : List Char → Prop) : (inner : Bool) → List Char → Prop
  | inert {inner : Bool} {w : List Char} (h : ∀ c ∈ w, IsInert c ∧ (c = ',' → inner = true)) :
      Nested S inner w
  | slot {inner : Bool} {w : List Char} (hw : TypePhrase.IsSlotText w) (hs : S w) :
      Nested S inner w
  | append {inner : Bool} {w v : List Char} (hw : Nested S inner w) (hv : Nested S inner v) :
      Nested S inner (w ++ v)
  | wrap {inner : Bool} {o c : Char} {w : List Char} (h : closer? o = some c)
      (hw : Nested S true w) : Nested S inner ([o] ++ (w ++ [c]))

/-! ## What the splitter does -/

section Splitter

variable {S : List Char → Prop} {inner : Bool} {stack w : List Char} {o c : Char}

theorem after_opener (h : closer? o = some c) : after stack [o] = c :: stack := by
  simp [after, stackAfter, h]

/-- What is waited for below a closing bracket is waited for after it. -/
theorem suffix_after_closer (hc : closer? c = none) {base : List Char} (h : c :: base <:+ stack) :
    base <:+ after stack [c] := by
  rw [after, List.foldl_cons, List.foldl_nil, stackAfter, hc]
  dsimp only
  split
  · obtain ⟨pre, rfl⟩ := h
    cases pre with
    | nil => exact List.suffix_rfl
    | cons d pre => exact ⟨pre ++ [c], by simp⟩
  · exact (List.suffix_cons c base).trans h

/-- The splitter does not cut a nested text, and still waits after it for all that it waited for
before. -/
theorem Nested.uncut (h : Nested S inner w) (hstack : inner = true → stack ≠ []) :
    Uncut stack w ∧ stack <:+ after stack w := by
  induction h generalizing stack with
  | @inert _ w h =>
    have hafter : after stack w = stack := after_of_forall fun c hc => (h c hc).1
    refine ⟨uncut_of_isInert fun c hc => ⟨(h c hc).1, fun heq => hstack ((h c hc).2 heq)⟩, ?_⟩
    simp [hafter]
  | slot hw _ =>
    obtain ⟨s, -, hs, rfl⟩ := hw
    refine ⟨uncut_slot hs stack, ?_⟩
    rw [after_slot hs]
    split
    · exact List.suffix_rfl
    · exact ⟨after [] s ++ [']', ']'], by simp⟩
  | append _ _ ihw ihv =>
    -- the stack before is below the stack in between, which is then not empty either
    obtain ⟨hw, hsuffix⟩ := ihw hstack
    obtain ⟨hv, hsuffix'⟩ := ihv fun hinner hnil =>
      hstack hinner (List.suffix_nil.1 (hnil ▸ hsuffix))
    rw [after_append]
    exact ⟨uncut_append.2 ⟨hw, hv⟩, hsuffix.trans hsuffix'⟩
  | @wrap _ o c w h _ ih =>
    obtain ⟨hw, hsuffix⟩ := @ih (c :: stack) (by simp)
    have ho : Uncut stack [o] := by
      refine ⟨fun _ => ⟨?_, ?_⟩, trivial⟩
      all_goals
        rintro rfl
        cases h
    -- a slot may leave more open than `c`, but never less, so that `c` does not close the list
    have hc : Uncut (after (c :: stack) w) [c] := by
      refine ⟨fun hnil => ?_, trivial⟩
      rw [hnil] at hsuffix
      cases List.suffix_nil.1 hsuffix
    rw [uncut_append, uncut_append, after_append, after_append, after_opener h]
    exact ⟨⟨ho, hw, hc⟩, suffix_after_closer (closer?_of_closer? h).1 hsuffix⟩

/-- A nested text closes what it opens if its slots do. -/
theorem Nested.after_eq (h : Nested (fun v => after [] v = []) inner w) (stack : List Char) :
    after stack w = stack := by
  induction h generalizing stack with
  | inert h => exact after_of_forall fun c hc => (h c hc).1
  | slot hw hs =>
    rcases slot_cases hw with ⟨-, hpass⟩ | ⟨hne, -⟩
    · exact (hpass stack).1
    · exact absurd hs hne
  | append _ _ ihw ihv => rw [after_append, ihw, ihv]
  | wrap h _ ih =>
    rw [after_append, after_append, after_opener h, ih]
    simp [after, stackAfter, closer?_of_closer? h]

end Splitter

/-! ## What derives a type -/

/-- A token that, if it is a slot, has a property. -/
structure Fits (S : List Char → Prop) (t : Token) : Prop where
  wellFormed : t.WellFormed
  slot : t.kind = .slot → S t.text

/-- The texts of tokens, one after the other. -/
def joined (ts : List Token) : List Char := ts.flatMap Token.text

section Derived

variable {S : List Char → Prop} {inner : Bool}

theorem joined_cons (t : Token) (ts : List Token) : joined (t :: ts) = t.text ++ joined ts :=
  List.flatMap_cons

theorem joined_append (ts us : List Token) : joined (ts ++ us) = joined ts ++ joined us :=
  List.flatMap_append

theorem joined_wrap (o c : Token) (ts : List Token) :
    joined (o :: (ts ++ [c])) = o.text ++ (joined ts ++ c.text) := by
  simp [joined]

/-- A token is nested unless it is a bracket; a comma stands in brackets. -/
theorem Fits.nested {t : Token} (ht : Fits S t) (hk : t.kind.nesting = 0) (hs : t.kind ≠ .stray)
    (hcomma : t.kind = .comma → inner = true) : Nested S inner t.text := by
  obtain ⟨kind, text, offset⟩ := t
  obtain ⟨hwf, hslot⟩ := ht
  cases kind with
  | word =>
    have hword : TypePhrase.IsWordText text := hwf
    refine .inert fun c hc => ⟨TypePhrase.isInert_of_isWordPart (hword.2 c hc), ?_⟩
    rintro rfl
    exact absurd (hword.2 _ hc) (by decide)
  | slot => exact .slot hwf (hslot rfl)
  | brackets =>
    obtain ⟨s, hblank, rfl⟩ :
        ∃ s, (∀ c ∈ s, Text.isBlank c = true) ∧ text = '[' :: (s ++ [']']) := hwf
    exact .wrap rfl (.inert fun c hc => ⟨isInert_of_isBlank (hblank c hc), fun _ => rfl⟩)
  | colon =>
    obtain rfl : text = [':'] := hwf
    exact .inert (List.forall_mem_singleton.2 ⟨by decide, by simp⟩)
  | comma =>
    obtain rfl : text = [','] := hwf
    exact .inert (List.forall_mem_singleton.2 ⟨by decide, fun _ => hcomma rfl⟩)
  | stray => exact absurd rfl hs
  | stop => exact hwf.elim
  | openBrace => cases hk
  | closeBrace => cases hk
  | openParen => cases hk
  | closeParen => cases hk

theorem nested_of_forall {ts : List Token} (h : ∀ t ∈ ts, Nested S inner t.text) :
    Nested S inner (joined ts) := by
  induction ts with
  | nil => exact .inert (by simp [joined])
  | cons t ts ih =>
    obtain ⟨ht, hts⟩ := List.forall_mem_cons.1 h
    rw [joined_cons]
    exact ht.append (ih hts)

theorem Fits.nested_word {t : Token} (ht : Fits S t) (hk : t.kind = .word) :
    Nested S inner t.text :=
  ht.nested (by rw [hk]; rfl) (by simp [hk]) (by simp [hk])

/-- Brackets of tokens are brackets of characters. -/
theorem Fits.wrap {o c : Token} {ts : List Token} (ho : Fits S o) (hc : Fits S c)
    (hkind : o.kind = .openBrace ∧ c.kind = .closeBrace ∨
      o.kind = .openParen ∧ c.kind = .closeParen) (hts : Nested S true (joined ts)) :
    Nested S inner (joined (o :: (ts ++ [c]))) := by
  obtain ⟨kind, text, offset⟩ := o
  obtain ⟨kind', text', offset'⟩ := c
  rw [joined_wrap]
  rcases hkind with ⟨hok, hck⟩ | ⟨hok, hck⟩
  all_goals
    cases hok
    cases hck
  · obtain rfl : text = ['\x7b'] := ho.wellFormed
    obtain rfl : text' = ['}'] := hc.wellFormed
    exact .wrap rfl hts
  · obtain rfl : text = ['('] := ho.wellFormed
    obtain rfl : text' = [')'] := hc.wellFormed
    exact .wrap rfl hts

end Derived

end Concordance.Header

namespace Concordance.TypePhrase

open Header (Nested Fits joined joined_cons joined_append nested_of_forall)

variable {S : List Char → Prop}

mutual

theorem IsType.nested {inner last : Bool} {k : Nat} {ts : List Token} {t : TypePhrase}
    (h : IsType last k ts t) (hts : ∀ w ∈ ts, Fits S w) : Nested S inner (joined ts) := by
  match h with
  | .plain h _ => exact h.nested hts
  | .either he h =>
    obtain ⟨hfits, hts⟩ := List.forall_mem_cons.1 hts
    rw [joined_cons]
    exact (hfits.nested_word (isWord_text he).1).append (h.nested hts)

theorem IsChoice.nested {inner : Bool} {k : Nat} {ts : List Token} {alts : List TypePhrase}
    (h : IsChoice k ts alts) (hts : ∀ w ∈ ts, Fits S w) : Nested S inner (joined ts) := by
  match h with
  | .one h => exact h.nested hts
  | .more h ho hm =>
    obtain ⟨hts, hrest⟩ := List.forall_mem_append.1 hts
    obtain ⟨hfits, hus⟩ := List.forall_mem_cons.1 hrest
    rw [joined_append, joined_cons]
    exact (h.nested hts).append ((hfits.nested_word (isWord_text ho).1).append (hm.nested hus))

theorem IsAlternative.nested {inner : Bool} {k : Nat} {ts : List Token} {t : TypePhrase}
    (h : IsAlternative k ts t) (hts : ∀ w ∈ ts, Fits S w) : Nested S inner (joined ts) := by
  match h with
  | .mk h hs _ _ =>
    obtain ⟨hts, hss⟩ := List.forall_mem_append.1 hts
    rw [joined_append]
    refine (h.nested hts).append (nested_of_forall fun s hmem => ?_)
    have hkind := hs s hmem
    exact (hss s hmem).nested (by rw [hkind]; rfl) (by simp [hkind]) (by simp [hkind])

theorem IsPrimary.nested {inner : Bool} {k : Nat} {ts : List Token} {t : TypePhrase}
    (h : IsPrimary k ts t) (hts : ∀ w ∈ ts, Fits S w) : Nested S inner (joined ts) := by
  match h with
  | .empty ho hc =>
    obtain ⟨hfits, hrest⟩ := List.forall_mem_cons.1 hts
    have hnil : Nested S true (joined []) := .inert (by simp [joined])
    exact hfits.wrap (List.forall_mem_singleton.1 hrest) (.inl ⟨ho, hc⟩) hnil
  | .record ho hc h _ =>
    obtain ⟨hfits, hrest⟩ := List.forall_mem_cons.1 hts
    obtain ⟨hts, hlast⟩ := List.forall_mem_append.1 hrest
    exact hfits.wrap (List.forall_mem_singleton.1 hlast) (.inl ⟨ho, hc⟩) (h.nested hts)
  | .parenthesized ho hc h =>
    obtain ⟨hfits, hrest⟩ := List.forall_mem_cons.1 hts
    obtain ⟨hts, hlast⟩ := List.forall_mem_append.1 hrest
    exact hfits.wrap (List.forall_mem_singleton.1 hlast) (.inr ⟨ho, hc⟩) (h.nested hts)
  | .list hw h =>
    obtain ⟨hws, hts⟩ := List.forall_mem_append.1 hts
    rw [joined_append]
    refine (nested_of_forall fun w hmem => ?_).append (h.nested hts)
    exact (hws w hmem).nested_word (isPhraseWord_iff.1 (hw.isPhraseWord hmem)).1
  | .words _ hwords _ =>
    exact nested_of_forall fun w hmem =>
      (hts w hmem).nested_word (isPhraseWord_iff.1 (hwords w hmem)).1

theorem IsFields.nested {k : Nat} {ts : List Token} {fields : List (String × TypePhrase)}
    (h : IsFields k ts fields) (hts : ∀ w ∈ ts, Fits S w) : Nested S true (joined ts) := by
  have hhead : ∀ {n c : Token}, n.kind = .word ∨ n.kind = .slot → c.kind = .colon → Fits S n →
      Fits S c → ∀ {v}, Nested S true v → Nested S true (n.text ++ (c.text ++ v)) := by
    intro n c hn hc hnf hcf v hv
    have hname : Nested S true n.text := by
      rcases hn with hn | hn <;> exact hnf.nested (by rw [hn]; rfl) (by simp [hn]) (by simp [hn])
    have hcolon : Nested S true c.text :=
      hcf.nested (by rw [hc]; rfl) (by simp [hc]) (by simp [hc])
    exact hname.append (hcolon.append hv)
  match h with
  | .one hn hc h =>
    obtain ⟨hnf, hrest⟩ := List.forall_mem_cons.1 hts
    obtain ⟨hcf, hts⟩ := List.forall_mem_cons.1 hrest
    rw [joined_cons, joined_cons]
    exact hhead hn hc hnf hcf (h.nested hts)
  | .more hn hc h hm hr =>
    obtain ⟨hnf, hrest⟩ := List.forall_mem_cons.1 hts
    obtain ⟨hcf, hrest⟩ := List.forall_mem_cons.1 hrest
    obtain ⟨hts, hrest⟩ := List.forall_mem_append.1 hrest
    obtain ⟨hmf, hus⟩ := List.forall_mem_cons.1 hrest
    have hcomma : Nested S true _ := hmf.nested (by rw [hm]; rfl) (by simp [hm]) fun _ => rfl
    rw [joined_cons, joined_cons, joined_append, joined_cons]
    exact hhead hn hc hnf hcf ((h.nested hts).append (hcomma.append (hr.nested hus)))

end

end Concordance.TypePhrase

namespace Concordance.Header

open TypePhrase (Token marks)

/-! ## Texts of types -/

/-- A text without the blanks between its tokens. -/
def bare (w : List Char) : List Char := joined (Token.scan w)

theorem bare_eq (w : List Char) : bare w = (marks w).flatMap Prod.snd := by
  rw [marks, List.flatMap_map]
  rfl

theorem bare_blank {c : Char} (hc : Text.isBlank c = true) (cs : List Char) :
    bare (c :: cs) = bare cs := by
  rw [bare_eq, TypePhrase.marks_blank hc, ← bare_eq]

theorem bare_token {t : Token} {cs : List Char} (h : marks (t.text ++ cs) = t.mark :: marks cs) :
    bare (t.text ++ cs) = t.text ++ bare cs := by
  rw [bare_eq, h, List.flatMap_cons, ← bare_eq]
  rfl

theorem after_bare (stack w : List Char) : after stack (bare w) = after stack w := by
  induction w using TypePhrase.text_induction generalizing stack with
  | nil => rfl
  | blank c cs hc ih => rw [bare_blank hc, after_cons_of_isInert (isInert_of_isBlank hc), ih]
  | token t cs _ hmarks ih => rw [bare_token hmarks, after_append, after_append, ih]

/-- Blanks between tokens are never cut. -/
theorem uncut_bare_iff (stack w : List Char) : Uncut stack (bare w) ↔ Uncut stack w := by
  induction w using TypePhrase.text_induction generalizing stack with
  | nil => rfl
  | blank c cs hc ih =>
    have hchar : c ≠ ')' ∧ c ≠ ',' := by
      constructor
      all_goals
        rintro rfl
        revert hc
        decide
    rw [bare_blank hc, ih, Uncut, stackAfter_of_isInert (isInert_of_isBlank hc)]
    exact (and_iff_right fun _ => hchar).symm
  | token t cs _ hmarks ih => rw [bare_token hmarks, uncut_append, uncut_append, ih]

/-- Every slot of a text closes what it opens. -/
def SlotsClose (text : List Char) : Prop :=
  ∀ w ∈ Token.scan text, w.kind = .slot → after [] w.text = []

instance (text : List Char) : Decidable (SlotsClose text) :=
  inferInstanceAs (Decidable (∀ _ ∈ _, _))

section Parse

variable {text : List Char} {t : TypePhrase} (h : TypePhrase.parse text = .ok t)
include h

theorem nested_bare {S : List Char → Prop}
    (hS : ∀ w ∈ Token.scan text, w.kind = .slot → S w.text) : Nested S false (bare text) :=
  (TypePhrase.parse_ok_iff.1 h).nested fun w hw => ⟨Token.wellFormed_of_mem_scan hw, hS w hw⟩

/-- **The splitter does not cut a type.** -/
theorem uncut_of_parse : Uncut [] text := by
  have hnested : Nested (fun _ => True) false (bare text) := nested_bare h fun _ _ _ => trivial
  exact (uncut_bare_iff [] text).1 (hnested.uncut (by simp)).1

/-- **After a type the splitter waits for what the slots of the type leave open.** -/
theorem after_eq_nil_iff : after [] text = [] ↔ SlotsClose text := by
  constructor
  · intro hafter
    obtain ⟨-, hslots⟩ := count_after_text text (TypePhrase.parse_ok_iff.1 h).enclosed.regular []
    exact List.forall_mem_map.1 (hslots (by rw [hafter]))
  · intro hslots
    have hnested : Nested (fun v => after [] v = []) false (bare text) := nested_bare h hslots
    rw [← after_bare]
    exact hnested.after_eq []

end Parse

end Concordance.Header
