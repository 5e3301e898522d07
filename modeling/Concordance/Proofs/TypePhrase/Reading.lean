import Concordance.Proofs.Outcome
import Concordance.TypePhrase.Parser

/-!
# What a reader did

For each reader of type phrases, what it means that it succeeded, in terms of the readers that it
calls. The grammar is compared with the readers through these lemmas only.
-/

namespace Concordance.TypePhrase

variable {r : Reader} {ts rest : List Token} {t : TypePhrase}

/-! ## The tokens around a field and its type -/

theorem readFieldName_ok_iff {seen : List String} {name : String} :
    readFieldName seen ts = .ok (name, rest) ↔
      ∃ n, ts = n :: rest ∧ (n.kind = .word ∨ n.kind = .slot) ∧ name = String.ofList n.text ∧
        name ∉ seen := by
  cases ts with
  | nil => simp [readFieldName]
  | cons n ts =>
    by_cases hn : n.kind = .word ∨ n.kind = .slot
    · by_cases hs : String.ofList n.text ∈ seen
      · simp only [readFieldName, if_pos hn, if_pos hs]
        grind
      · simp only [readFieldName, if_pos hn, if_neg hs]
        grind
    · simp only [readFieldName, if_neg hn]
      grind

theorem readColon_ok_iff :
    readColon ts = .ok rest ↔ ∃ c, ts = c :: rest ∧ c.kind = .colon := by
  cases ts with
  | nil => simp [readColon]
  | cons c ts => by_cases hc : c.kind = .colon <;> grind [readColon]

/-! ## Choices and records -/

theorem readMore_succ_ok_iff {bound : Nat} {more : List TypePhrase} :
    readMore r (bound + 1) ts = .ok (more, rest) ↔
      (more = [] ∧ rest = ts ∧ ∀ o ∈ ts.head?, o.isWord "or".toList = false) ∨
      ∃ o us a vs more', ts = o :: us ∧ o.isWord "or".toList = true ∧ r us = .ok (a, vs) ∧
        readMore r bound vs = .ok (more', rest) ∧ more = a :: more' := by
  cases ts with
  | nil => grind [readMore]
  | cons o us =>
    by_cases ho : o.isWord "or".toList = true
    · simp only [readMore, if_pos ho, bind_ok_iff, Prod.exists]
      constructor
      · rintro ⟨a, vs, ha, more', ws, hm, h⟩
        cases h
        exact .inr ⟨o, us, a, vs, more', rfl, ho, ha, hm, rfl⟩
      · rintro (⟨-, -, h⟩ | ⟨o', us', a, vs, more', heq, -, ha, hm, rfl⟩)
        · exact absurd ho (Bool.eq_false_iff.1 (h o rfl))
        · cases heq
          exact ⟨a, vs, ha, more', rest, hm, rfl⟩
    · simp only [readMore, if_neg ho]
      grind

theorem readUnion_ok_iff :
    readUnion r ts = .ok (t, rest) ↔ ∃ a us more, r (dropEither ts) = .ok (a, us) ∧
      readMore r us.length us = .ok (more, rest) ∧ t = either a more := by
  simp only [readUnion, bind_ok_iff, Prod.exists]
  constructor
  · rintro ⟨a, us, ha, more, vs, hm, h⟩
    cases h
    exact ⟨a, us, more, ha, hm, rfl⟩
  · rintro ⟨a, us, more, ha, hm, rfl⟩
    exact ⟨a, us, ha, more, rest, hm, rfl⟩

theorem readFields_succ_ok_iff {opening : Token} {bound : Nat} {seen : List String}
    {fields : List (String × TypePhrase)} :
    readFields r opening (bound + 1) seen ts = .ok (fields, rest) ↔
      ∃ name us vs a u ws, readFieldName seen ts = .ok (name, us) ∧ readColon us = .ok vs ∧
        readUnion r vs = .ok (a, u :: ws) ∧
        ((u.kind = .comma ∧ ∃ fields', readFields r opening bound (name :: seen) ws =
            .ok (fields', rest) ∧ fields = (name, a) :: fields') ∨
          (u.kind = .closeBrace ∧ fields = [(name, a)] ∧ rest = ws)) := by
  simp only [readFields, bind_ok_iff, Prod.exists]
  constructor
  · rintro ⟨name, us, hname, vs, hcolon, a, ws, ha, h⟩
    cases ws with
    | nil => cases h
    | cons u ws =>
      refine ⟨name, us, vs, a, u, ws, hname, hcolon, ha, ?_⟩
      dsimp only at h
      split at h
      · next hu =>
        obtain ⟨⟨fields', ws'⟩, hf, h'⟩ := bind_ok_iff.1 h
        cases h'
        exact .inl ⟨hu, fields', hf, rfl⟩
      · split at h
        · next hu =>
          cases h
          exact .inr ⟨hu, rfl, rfl⟩
        · cases h
  · rintro ⟨name, us, vs, a, u, ws, hname, hcolon, ha, h⟩
    refine ⟨name, us, hname, vs, hcolon, a, u :: ws, ha, ?_⟩
    rcases h with ⟨hu, fields', hf, rfl⟩ | ⟨hu, rfl, rfl⟩
    · dsimp only
      rw [if_pos hu]
      exact bind_ok_iff.2 ⟨_, hf, rfl⟩
    · simp [hu, pure, Except.pure]

theorem readRecord_ok_iff {opening : Token} :
    readRecord r opening ts = .ok (t, rest) ↔
      (∃ c, ts = c :: rest ∧ c.kind = .closeBrace ∧ t = .record []) ∨
      ((∀ c ∈ ts.head?, c.kind ≠ .closeBrace) ∧
        ∃ fields, readFields r opening ts.length [] ts = .ok (fields, rest) ∧
          t = .record fields) := by
  cases ts with
  | nil => simp [readRecord, readFields]
  | cons c us =>
    by_cases hc : c.kind = .closeBrace
    · simp only [readRecord, if_pos hc]
      grind
    · simp only [readRecord, if_neg hc, map_ok_iff]
      grind

theorem readParenthesized_ok_iff :
    readParenthesized r ts = .ok (t, rest) ↔
      ∃ c, readUnion r ts = .ok (t, c :: rest) ∧ c.kind = .closeParen := by
  simp only [readParenthesized, bind_ok_iff, Prod.exists]
  constructor
  · rintro ⟨a, us, ha, h⟩
    cases us with
    | nil => cases h
    | cons c us =>
      dsimp only at h
      split at h
      · next hc =>
        cases h
        exact ⟨c, ha, hc⟩
      · cases h
  · rintro ⟨c, ha, hc⟩
    exact ⟨t, c :: rest, ha, by simp [hc, pure, Except.pure]⟩

/-! ## Alternatives and texts -/

theorem alt_succ_ok_iff {n : Nat} :
    alt (n + 1) ts = .ok (t, rest) ↔ ∃ a us, readPrimary (alt n) ts = .ok (a, us) ∧
      readSuffixes n a us = .ok (t, rest) := by
  simp only [alt, bind_ok_iff, Prod.exists]

theorem ofTokens_ok_iff {n : Nat} :
    ofTokens n ts = .ok t ↔ readUnion (alt n) ts = .ok (t, []) := by
  simp only [ofTokens, bind_ok_iff, Prod.exists]
  constructor
  · rintro ⟨a, us, ha, h⟩
    cases us with
    | nil =>
      cases h
      exact ha
    | cons u us => cases h
  · intro h
    exact ⟨t, [], h, rfl⟩

end Concordance.TypePhrase
