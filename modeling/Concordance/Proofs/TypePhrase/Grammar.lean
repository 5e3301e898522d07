import Concordance.TypePhrase.Parser

/-!
# The grammar of type phrases

What a list of tokens writes, said without the reader:

    type    := ['either'] alternative ('or' alternative)*
    alternative := primary ('[]')*
    primary := '{' [field (',' field)*] '}' | '(' type ')'
             | ['a' | 'an'] 'List' 'of' alternative | word+
    field   := (word | slot) ':' type

The productions are relations between the number of primaries around a phrase, its tokens and the
type that it writes. Where the grammar is ambiguous, side conditions say how it is read: `either`
at the start of a type is the keyword unless it is the last token of the text, a phrase of words
does not begin like a list phrase, and a suffix after a list phrase belongs to its element. At most
`maxLevels` primaries and suffixes are open at once.
-/

namespace Concordance.TypePhrase

/-- The keyword at the start of a choice. -/
def isEither (t : Token) : Bool := t.isWord "either".toList

/-- The keyword between alternatives. -/
def isOr (t : Token) : Bool := t.isWord "or".toList

/-- The words that a list phrase starts with. -/
inductive IsListOf : List Token → Prop where
  | plain {l o : Token} (hl : l.kind = .word ∧ l.text = "List".toList)
      (ho : o.isWord "of".toList = true) : IsListOf [l, o]
  | article {a l o : Token} (ha : a.isWord "a".toList = true ∨ a.isWord "an".toList = true)
      (hl : l.kind = .word ∧ l.text = "List".toList) (ho : o.isWord "of".toList = true) :
      IsListOf [a, l, o]

/-- The tokens begin like a list phrase. -/
def StartsListPhrase (ts : List Token) : Prop := ∃ ws us, IsListOf ws ∧ ts = ws ++ us

/-- The phrase that words write, one blank between them. -/
def phraseOf (ts : List Token) : TypePhrase :=
  .named (String.ofList ([' '].intercalate (ts.map (·.text))))

/-- A type with so many list suffixes. -/
def suffixed : Nat → TypePhrase → TypePhrase
  | 0, t => t
  | n + 1, t => suffixed n (.list t)

mutual

/-- A type under `k` primaries; `last` says whether its tokens are the last ones of the text. -/
inductive IsType : (last : Bool) → (k : Nat) → List Token → TypePhrase → Prop where
  | plain {last : Bool} {k : Nat} {ts : List Token} {t : TypePhrase} {alts : List TypePhrase}
      (h : IsChoice k ts (t :: alts))
      (hn : ∀ e us, ts = e :: us → isEither e = true → us = [] ∧ last = true) :
      IsType last k ts (either t alts)
  | either {last : Bool} {k : Nat} {e : Token} {ts : List Token} {t : TypePhrase}
      {alts : List TypePhrase} (he : isEither e = true) (h : IsChoice k ts (t :: alts)) :
      IsType last k (e :: ts) (either t alts)

/-- One or more alternatives with `or` between them. -/
inductive IsChoice : (k : Nat) → List Token → List TypePhrase → Prop where
  | one {k : Nat} {ts : List Token} {t : TypePhrase} (h : IsAlternative k ts t) : IsChoice k ts [t]
  | more {k : Nat} {ts us : List Token} {o : Token} {t : TypePhrase} {alts : List TypePhrase}
      (h : IsAlternative k ts t) (ho : isOr o = true) (hm : IsChoice k us alts) :
      IsChoice k (ts ++ o :: us) (t :: alts)

/-- A primary with list suffixes. It has fewer than `maxLevels` primaries around it, and its
suffixes count as further levels. -/
inductive IsAlternative : (k : Nat) → List Token → TypePhrase → Prop where
  | mk {k : Nat} {ts ss : List Token} {t : TypePhrase} (h : IsPrimary k ts t)
      (hs : ∀ s ∈ ss, s.kind = .brackets) (hk : k + ss.length < maxLevels)
      (hl : ss ≠ [] → ¬StartsListPhrase ts) : IsAlternative k (ts ++ ss) (suffixed ss.length t)

/-- A type that ends on its own. -/
inductive IsPrimary : (k : Nat) → List Token → TypePhrase → Prop where
  | empty {k : Nat} {o c : Token} (ho : o.kind = .openBrace) (hc : c.kind = .closeBrace) :
      IsPrimary k [o, c] (.record [])
  | record {k : Nat} {o c : Token} {ts : List Token} {fields : List (String × TypePhrase)}
      (ho : o.kind = .openBrace) (hc : c.kind = .closeBrace) (h : IsFields (k + 1) ts fields)
      (hd : (fields.map (·.1)).Nodup) : IsPrimary k (o :: (ts ++ [c])) (.record fields)
  | parenthesized {k : Nat} {o c : Token} {ts : List Token} {t : TypePhrase}
      (ho : o.kind = .openParen) (hc : c.kind = .closeParen) (h : IsType false (k + 1) ts t) :
      IsPrimary k (o :: (ts ++ [c])) t
  | list {k : Nat} {ws ts : List Token} {t : TypePhrase} (hw : IsListOf ws)
      (h : IsAlternative (k + 1) ts t) : IsPrimary k (ws ++ ts) (.list t)
  | words {k : Nat} {ts : List Token} (hne : ts ≠ []) (hw : ∀ w ∈ ts, isPhraseWord w = true)
      (hl : ¬StartsListPhrase ts) : IsPrimary k ts (phraseOf ts)

/-- One or more fields with commas between them. -/
inductive IsFields : (k : Nat) → List Token → List (String × TypePhrase) → Prop where
  | one {k : Nat} {n c : Token} {ts : List Token} {t : TypePhrase}
      (hn : n.kind = .word ∨ n.kind = .slot) (hc : c.kind = .colon) (h : IsType false k ts t) :
      IsFields k (n :: c :: ts) [(String.ofList n.text, t)]
  | more {k : Nat} {n c m : Token} {ts us : List Token} {t : TypePhrase}
      {fields : List (String × TypePhrase)} (hn : n.kind = .word ∨ n.kind = .slot)
      (hc : c.kind = .colon) (h : IsType false k ts t) (hm : m.kind = .comma)
      (hr : IsFields k us fields) :
      IsFields k (n :: c :: (ts ++ m :: us)) ((String.ofList n.text, t) :: fields)

end

/-! ## What comes next -/

/-- No list suffix comes next. -/
def NoSuffix (ts : List Token) : Prop := ∀ s ∈ ts.head?, s.kind ≠ .brackets

/-- No word of a phrase comes next. -/
def NoWord (ts : List Token) : Prop := ∀ w ∈ ts.head?, isPhraseWord w = false

/-- No further alternative comes next. -/
def NoOr (ts : List Token) : Prop := ∀ o ∈ ts.head?, isOr o = false

@[simp] theorem noSuffix_nil : NoSuffix [] := by simp [NoSuffix]

@[simp] theorem noWord_nil : NoWord [] := by simp [NoWord]

@[simp] theorem noOr_nil : NoOr [] := by simp [NoOr]

@[simp] theorem noSuffix_cons {u : Token} {ts : List Token} :
    NoSuffix (u :: ts) ↔ u.kind ≠ .brackets := by simp [NoSuffix]

@[simp] theorem noWord_cons {u : Token} {ts : List Token} :
    NoWord (u :: ts) ↔ isPhraseWord u = false := by simp [NoWord]

@[simp] theorem noOr_cons {u : Token} {ts : List Token} : NoOr (u :: ts) ↔ isOr u = false := by
  simp [NoOr]

/-! ## How keywords are recognised -/

theorem isWord_text {t : Token} {w : List Char} (h : t.isWord w = true) :
    t.kind = .word ∧ t.text.map Char.toLower = w := by
  simpa [Token.isWord] using h

theorem startsListPhrase_cons {t : Token} {ts : List Token} (h : StartsListPhrase (t :: ts)) :
    t.kind = .word := by
  obtain ⟨ws, us, hw, heq⟩ := h
  cases hw with
  | plain hl ho =>
    simp only [List.cons_append, List.cons.injEq] at heq
    exact heq.1 ▸ hl.1
  | article ha hl ho =>
    simp only [List.cons_append, List.cons.injEq] at heq
    rw [heq.1]
    exact ha.elim (fun h => (isWord_text h).1) fun h => (isWord_text h).1

theorem dropEither_cases (ts : List Token) :
    (∃ e us, ts = e :: us ∧ us ≠ [] ∧ isEither e = true ∧ dropEither ts = us) ∨
      dropEither ts = ts ∧ ∀ e us, ts = e :: us → isEither e = true → us = [] := by
  match ts with
  | [] => exact .inr ⟨rfl, by simp⟩
  | [e] => exact .inr ⟨rfl, by simp⟩
  | e :: u :: us =>
    by_cases he : isEither e = true
    · exact .inl ⟨e, u :: us, rfl, by simp, he, by rw [dropEither]; exact if_pos he⟩
    · refine .inr ⟨by rw [dropEither]; exact if_neg he, ?_⟩
      rintro e' us' heq he'
      exact absurd ((List.cons.inj heq).1 ▸ he') he

theorem afterListOf?_eq_some_iff {ts us : List Token} : afterListOf? ts = some us ↔
    ∃ l o, ts = l :: o :: us ∧ (l.kind = .word ∧ l.text = "List".toList) ∧
      o.isWord "of".toList = true := by
  unfold afterListOf?
  split
  · next l o us' => split <;> grind
  · next h => simpa using fun l o hts => (h l o us hts).elim

/-- The words of a list phrase are recognised wherever they start a list of tokens. -/
theorem afterListPhrase?_eq_some_iff {ts us : List Token} :
    afterListPhrase? ts = some us ↔ ∃ ws, IsListOf ws ∧ ts = ws ++ us := by
  cases ts with
  | nil =>
    refine iff_of_false (by simp [afterListPhrase?]) ?_
    rintro ⟨ws, hw, heq⟩
    cases hw <;> simp at heq
  | cons t ts =>
    rw [afterListPhrase?]
    split
    · next ha =>
      rw [Bool.or_eq_true] at ha
      rw [afterListOf?_eq_some_iff]
      constructor
      · rintro ⟨l, o, rfl, hl, ho⟩
        exact ⟨[t, l, o], .article ha hl ho, rfl⟩
      · rintro ⟨ws, hw, heq⟩
        cases hw with
        | article ha' hl ho =>
          simp only [List.cons_append, List.nil_append, List.cons.injEq] at heq
          exact ⟨_, _, heq.2, hl, ho⟩
        | plain hl ho =>
          -- the word `List` is no article
          simp only [List.cons_append, List.nil_append, List.cons.injEq] at heq
          obtain ⟨rfl, -⟩ := heq
          simp [Token.isWord, hl.2] at ha
    · next ha =>
      rw [afterListOf?_eq_some_iff]
      constructor
      · rintro ⟨l, o, heq, hl, ho⟩
        exact ⟨[l, o], .plain hl ho, heq⟩
      · rintro ⟨ws, hw, heq⟩
        cases hw with
        | article ha' hl ho =>
          simp only [List.cons_append, List.nil_append, List.cons.injEq] at heq
          rw [Bool.or_eq_true, heq.1] at ha
          exact absurd ha' ha
        | plain hl ho => exact ⟨_, _, heq, hl, ho⟩

theorem afterListPhrase?_eq_none_iff {ts : List Token} :
    afterListPhrase? ts = none ↔ ¬StartsListPhrase ts := by
  rw [Option.eq_none_iff_forall_ne_some, StartsListPhrase]
  simp only [Ne, afterListPhrase?_eq_some_iff]
  grind

end Concordance.TypePhrase
