import Concordance.Proofs.Outcome
import Concordance.Proofs.TypePhrase.Grammar
import Concordance.Proofs.TypePhrase.Scan

/-!
# Where a misparse is met

A reader gives back tokens that it was given, and stumbles over one of them or over the end of the
text: its outcome is `Among` the tokens. This is kept when readers are chained, so it holds of the
reader of whole types. So a text either writes the same type wherever it stands, or it is refused
with the same misparse wherever it stands, at one of its tokens (`parseAt_cases`).
-/

namespace Concordance.TypePhrase

/-- The outcome of a reader concerns no tokens but the given ones: those that it leaves, which
`left` takes from what it read, and the token of a misparse are among them. -/
def Among {α : Type} (left : α → List Token) (tokens : List Token) (x : Except Misparse α) :
    Prop :=
  (∀ a, x = .ok a → left a ⊆ tokens) ∧ ∀ m, x = .error m → ∀ t ∈ m.token, t ∈ tokens

section Among

variable {α β : Type} {left : α → List Token} {left' : β → List Token} {tokens : List Token}

theorem among_ok {a : α} (h : left a ⊆ tokens) : Among left tokens (.ok a) :=
  ⟨fun _ heq => Except.ok.inj heq ▸ h, nofun⟩

theorem among_error {o : Obstacle} {t : Option Token} (h : ∀ u ∈ t, u ∈ tokens) :
    Among left tokens (.error ⟨o, t⟩) :=
  ⟨nofun, fun _ heq => Except.error.inj heq ▸ h⟩

theorem Among.bind {x : Except Misparse α} {f : α → Except Misparse β} (hx : Among left tokens x)
    (hf : ∀ a, left a ⊆ tokens → Among left' tokens (f a)) : Among left' tokens (x >>= f) := by
  cases x with
  | error m =>
    refine ⟨nofun, fun m' heq => hx.2 m' ?_⟩
    cases heq
    rfl
  | ok a => exact hf a (hx.1 a rfl)

theorem Among.map {x : Except Misparse α} {f : α → β} (hx : Among left tokens x)
    (hf : ∀ a, left' (f a) = left a) : Among left' tokens (x.map f) := by
  cases x with
  | error m =>
    refine ⟨nofun, fun m' heq => hx.2 m' ?_⟩
    cases heq
    rfl
  | ok a => exact among_ok (hf a ▸ hx.1 a rfl)

end Among

/-! ## The readers -/

section Readers

variable {tokens ts : List Token} {r : Reader}

theorem dropEither_subset (ts : List Token) : dropEither ts ⊆ ts := by
  unfold dropEither
  split
  · split
    · exact List.subset_cons_self _ _
    · exact List.Subset.refl _
  · exact List.Subset.refl _

theorem readFieldName_among {seen : List String} (hts : ts ⊆ tokens) :
    Among Prod.snd tokens (readFieldName seen ts) := by
  cases ts with
  | nil => exact among_error (by simp)
  | cons t ts =>
    obtain ⟨ht, hts⟩ := List.cons_subset.1 hts
    rw [readFieldName]
    split
    · dsimp only
      split
      · exact among_error (by simpa using ht)
      · exact among_ok hts
    · exact among_error (by simpa using ht)

theorem readColon_among (hts : ts ⊆ tokens) : Among id tokens (readColon ts) := by
  cases ts with
  | nil => exact among_error (by simp)
  | cons t ts =>
    obtain ⟨ht, hts⟩ := List.cons_subset.1 hts
    rw [readColon]
    split
    · exact among_ok hts
    · exact among_error (by simpa using ht)

theorem readSuffixes_among {allowed : Nat} {t : TypePhrase} (hts : ts ⊆ tokens) :
    Among Prod.snd tokens (readSuffixes allowed t ts) := by
  induction ts generalizing allowed t with
  | nil =>
    unfold readSuffixes
    exact among_ok hts
  | cons u us ih =>
    obtain ⟨hu, hus⟩ := List.cons_subset.1 hts
    unfold readSuffixes
    split
    · cases allowed with
      | zero => exact among_error (by simpa using hu)
      | succ allowed => exact ih hus
    · exact among_ok hts

variable (hr : ∀ us ⊆ tokens, Among Prod.snd tokens (r us))
include hr

theorem readMore_among {bound : Nat} (hts : ts ⊆ tokens) :
    Among Prod.snd tokens (readMore r bound ts) := by
  induction bound generalizing ts with
  | zero => exact among_ok hts
  | succ bound ih =>
    cases ts with
    | nil => exact among_ok hts
    | cons t ts =>
      rw [readMore]
      split
      · refine (hr ts (List.cons_subset.1 hts).2).bind fun a ha => ?_
        exact (ih ha).bind fun more hmore => among_ok hmore
      · exact among_ok hts

theorem readUnion_among (hts : ts ⊆ tokens) : Among Prod.snd tokens (readUnion r ts) := by
  refine (hr _ (List.Subset.trans (dropEither_subset ts) hts)).bind fun a ha => ?_
  exact (readMore_among hr ha).bind fun more hmore => among_ok hmore

theorem readFields_among {opening : Token} (hopening : opening ∈ tokens) {bound : Nat}
    {seen : List String} (hts : ts ⊆ tokens) :
    Among Prod.snd tokens (readFields r opening bound seen ts) := by
  induction bound generalizing seen ts with
  | zero => exact among_error fun t ht => hts (List.mem_of_head? ht)
  | succ bound ih =>
    refine (readFieldName_among hts).bind fun name hname => ?_
    refine (readColon_among hname).bind fun us hus => ?_
    refine (readUnion_among hr hus).bind fun a ha => ?_
    obtain ⟨a, us⟩ := a
    cases us with
    | nil => exact among_error (by simpa using hopening)
    | cons u us =>
      obtain ⟨hu, hus⟩ := List.cons_subset.1 ha
      dsimp only
      split
      · exact (ih hus).bind fun fields hfields => among_ok hfields
      · split
        · exact among_ok hus
        · exact among_error (by simpa using hu)

theorem readRecord_among {opening : Token} (hopening : opening ∈ tokens) (hts : ts ⊆ tokens) :
    Among Prod.snd tokens (readRecord r opening ts) := by
  cases ts with
  | nil => exact among_error (by simp)
  | cons t ts =>
    rw [readRecord]
    split
    · exact among_ok (List.cons_subset.1 hts).2
    · exact (readFields_among hr hopening hts).map fun _ => rfl

theorem readParenthesized_among (hts : ts ⊆ tokens) :
    Among Prod.snd tokens (readParenthesized r ts) := by
  refine (readUnion_among hr hts).bind fun a ha => ?_
  obtain ⟨a, us⟩ := a
  cases us with
  | nil => exact among_error (by simp)
  | cons u us =>
    obtain ⟨hu, hus⟩ := List.cons_subset.1 ha
    dsimp only
    split
    · exact among_ok hus
    · exact among_error (by simpa using hu)

theorem readPrimary_among (hts : ts ⊆ tokens) : Among Prod.snd tokens (readPrimary r ts) := by
  cases ts with
  | nil => exact among_error (by simp)
  | cons t ts =>
    obtain ⟨ht, hts'⟩ := List.cons_subset.1 hts
    rw [readPrimary]
    split
    · exact readRecord_among hr ht hts'
    · split
      · exact readParenthesized_among hr hts'
      · split
        · split
          · next us hlist =>
            obtain ⟨ws, -, heq⟩ := afterListPhrase?_eq_some_iff.1 hlist
            rw [heq] at hts
            exact (hr us (List.Subset.trans (List.subset_append_right ws us) hts)).map fun _ => rfl
          · exact among_ok (List.Subset.trans (List.dropWhile_sublist _).subset hts)
        · exact among_error (by simpa using ht)

end Readers

theorem alt_among (levels : Nat) {tokens : List Token} :
    ∀ ts ⊆ tokens, Among Prod.snd tokens (alt levels ts) := by
  induction levels with
  | zero => exact fun ts hts => among_error fun t ht => hts (List.mem_of_head? ht)
  | succ levels ih =>
    intro ts hts
    exact (readPrimary_among ih hts).bind fun a ha => readSuffixes_among ha

/-- A misparse of a text is met at one of its tokens, or at its end. -/
theorem ofTokens_among (levels : Nat) (ts : List Token) :
    Among (fun _ => []) ts (ofTokens levels ts) := by
  refine (readUnion_among (alt_among levels) (List.Subset.refl ts)).bind fun a ha => ?_
  obtain ⟨a, us⟩ := a
  cases us with
  | nil => exact among_ok (List.nil_subset _)
  | cons u us => exact among_error (by simpa using ha List.mem_cons_self)

/-- **A text is read or refused in the same way wherever it stands.** It writes one type, or it has
one misparse, which is met at one of its tokens or at its end. -/
theorem parseAt_cases (text : List Char) :
    (∃ t, ∀ base, parseAt base text = .ok t) ∨
      ∃ m, ∃ token ∈ Token.scanAll text, ∀ base,
        parseAt base text = .error ⟨m, base + token.offset⟩ := by
  have hamong := ofTokens_among maxLevels (Token.scan text)
  rw [← parse] at hamong
  cases hparse : parse text with
  | ok t => exact .inl ⟨t, fun base => by rw [parseAt, hparse]; rfl⟩
  | error m =>
    refine .inr ⟨m, ?_⟩
    have hbase : ∀ base, parseAt base text = .error ⟨m, base + m.offset text.length⟩ :=
      fun base => by rw [parseAt, hparse]; rfl
    cases htoken : m.token with
    | none =>
      refine ⟨⟨.stop, [], text.length⟩, List.mem_append_right _ (List.mem_singleton_self _), ?_⟩
      simpa [Misparse.offset, htoken] using hbase
    | some t =>
      refine ⟨t, List.mem_append_left _ (hamong.2 m hparse t htoken), ?_⟩
      simpa [Misparse.offset, htoken] using hbase

end Concordance.TypePhrase
