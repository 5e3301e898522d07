import Mathlib.Logic.Function.Basic

/-!
# Patterns with groups

A pattern is built from classes of characters, as a regular expression is, and from groups: a group
keeps the text that it matches under a name, and `again` matches the text kept under a name once
more. `Matches` relates a pattern to the whole texts that it matches, with what is kept before and
after. It leaves open which of several matches is looked for first, so that what holds of all of
them holds for every order of the search.
-/

namespace Concordance.Text

/-- A pattern whose groups are named in `ν`. -/
inductive Pattern (ν : Type) where
  | empty
  /-- One character of a class. -/
  | char (p : Char → Bool)
  | seq (a b : Pattern ν)
  /-- The pattern or nothing. -/
  | opt (a : Pattern ν)
  /-- The pattern any number of times. -/
  | many (a : Pattern ν)
  | group (n : ν) (a : Pattern ν)
  | again (n : ν)

namespace Pattern

variable {ν : Type}

/-- What the groups have kept; a group that took no part has kept nothing. -/
abbrev Captures (ν : Type) := ν → Option (List Char)

/-- A given text. -/
def text : List Char → Pattern ν
  | [] => .empty
  | c :: cs => .seq (.char (· = c)) (text cs)

variable [DecidableEq ν]

/-- The pattern matches the text, from what was kept before to what is kept after. -/
inductive Matches : Pattern ν → Captures ν → List Char → Captures ν → Prop where
  | empty {g : Captures ν} : Matches .empty g [] g
  | char {p : Char → Bool} {g : Captures ν} {c : Char} (h : p c = true) :
      Matches (.char p) g [c] g
  | seq {a b : Pattern ν} {g g' g'' : Captures ν} {u v : List Char} (ha : Matches a g u g')
      (hb : Matches b g' v g'') : Matches (.seq a b) g (u ++ v) g''
  | skip {a : Pattern ν} {g : Captures ν} : Matches (.opt a) g [] g
  | take {a : Pattern ν} {g g' : Captures ν} {u : List Char} (h : Matches a g u g') :
      Matches (.opt a) g u g'
  | stop {a : Pattern ν} {g : Captures ν} : Matches (.many a) g [] g
  | step {a : Pattern ν} {g g' g'' : Captures ν} {u v : List Char} (ha : Matches a g u g')
      (hs : Matches (.many a) g' v g'') : Matches (.many a) g (u ++ v) g''
  | group {n : ν} {a : Pattern ν} {g g' : Captures ν} {u : List Char} (h : Matches a g u g') :
      Matches (.group n a) g u (Function.update g' n (some u))
  | again {n : ν} {g : Captures ν} {u : List Char} (h : g n = some u) : Matches (.again n) g u g

variable {a b : Pattern ν} {p : Char → Bool} {n : ν} {g g' : Captures ν} {w : List Char}

theorem matches_empty_iff : Matches .empty g w g' ↔ w = [] ∧ g' = g := by
  constructor
  · intro h
    cases h
    exact ⟨rfl, rfl⟩
  · rintro ⟨rfl, rfl⟩
    exact .empty

theorem matches_char_iff : Matches (.char p) g w g' ↔ ∃ c, w = [c] ∧ p c = true ∧ g' = g := by
  constructor
  · intro h
    cases h with
    | char h => exact ⟨_, rfl, h, rfl⟩
  · rintro ⟨c, rfl, h, rfl⟩
    exact .char h

theorem matches_seq_iff :
    Matches (.seq a b) g w g' ↔ ∃ u v h, w = u ++ v ∧ Matches a g u h ∧ Matches b h v g' := by
  constructor
  · intro h
    cases h with
    | seq ha hb => exact ⟨_, _, _, rfl, ha, hb⟩
  · rintro ⟨u, v, h, rfl, ha, hb⟩
    exact .seq ha hb

theorem matches_opt_iff :
    Matches (.opt a) g w g' ↔ (w = [] ∧ g' = g) ∨ Matches a g w g' := by
  constructor
  · intro h
    cases h with
    | skip => exact .inl ⟨rfl, rfl⟩
    | take h => exact .inr h
  · rintro (⟨rfl, rfl⟩ | h)
    · exact .skip
    · exact .take h

theorem matches_group_iff :
    Matches (.group n a) g w g' ↔ ∃ h, Matches a g w h ∧ g' = Function.update h n (some w) := by
  constructor
  · intro h
    cases h with
    | group h => exact ⟨_, h, rfl⟩
  · rintro ⟨h, ha, rfl⟩
    exact .group ha

theorem matches_again_iff : Matches (.again n) g w g' ↔ g n = some w ∧ g' = g := by
  constructor
  · intro h
    cases h with
    | again h => exact ⟨h, rfl⟩
  · rintro ⟨h, rfl⟩
    exact .again h

theorem matches_text_iff {cs : List Char} : Matches (text cs) g w g' ↔ w = cs ∧ g' = g := by
  induction cs generalizing w g with
  | nil => exact matches_empty_iff
  | cons c cs ih =>
    rw [text, matches_seq_iff]
    simp only [matches_char_iff, ih]
    constructor
    · rintro ⟨_, _, _, rfl, ⟨d, rfl, hd, rfl⟩, rfl, rfl⟩
      exact ⟨by rw [of_decide_eq_true hd]; rfl, rfl⟩
    · rintro ⟨rfl, rfl⟩
      exact ⟨[c], cs, g', rfl, ⟨c, rfl, decide_eq_true rfl, rfl⟩, rfl, rfl⟩

theorem matches_many_iff : Matches (.many a) g w g' ↔ (w = [] ∧ g' = g) ∨
    ∃ u v h, w = u ++ v ∧ Matches a g u h ∧ Matches (.many a) h v g' := by
  constructor
  · intro h
    cases h with
    | stop => exact .inl ⟨rfl, rfl⟩
    | step ha hs => exact .inr ⟨_, _, _, rfl, ha, hs⟩
  · rintro (⟨rfl, rfl⟩ | ⟨u, v, h, rfl, ha, hs⟩)
    · exact .stop
    · exact .step ha hs

/-- Any number of characters of a class. -/
theorem matches_many_char_iff :
    Matches (.many (.char p)) g w g' ↔ (∀ c ∈ w, p c = true) ∧ g' = g := by
  induction w with
  | nil =>
    rw [matches_many_iff]
    constructor
    · rintro (⟨-, rfl⟩ | ⟨u, v, h, heq, ha, -⟩)
      · exact ⟨by simp, rfl⟩
      · obtain ⟨c, rfl, -⟩ := matches_char_iff.1 ha
        cases heq
    · rintro ⟨-, rfl⟩
      exact .inl ⟨rfl, rfl⟩
  | cons c cs ih =>
    rw [matches_many_iff]
    constructor
    · rintro (⟨heq, -⟩ | ⟨u, v, h, heq, ha, hs⟩)
      · cases heq
      · obtain ⟨d, rfl, hd, rfl⟩ := matches_char_iff.1 ha
        obtain ⟨rfl, rfl⟩ := List.cons.inj heq
        obtain ⟨hcs, hg⟩ := ih.1 hs
        exact ⟨List.forall_mem_cons.2 ⟨hd, hcs⟩, hg⟩
    · rintro ⟨hw, hg⟩
      obtain ⟨hc, hcs⟩ := List.forall_mem_cons.1 hw
      exact .inr ⟨[c], cs, g, rfl, .char hc, ih.2 ⟨hcs, hg⟩⟩

end Pattern

end Concordance.Text
