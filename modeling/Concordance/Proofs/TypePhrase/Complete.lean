import Concordance.Proofs.TypePhrase.Sound

/-!
# What is in the grammar is read

Along a derivation every reader takes exactly the tokens derived and leaves the others, as long as
the next token cannot extend the phrase. The five statements follow the five kinds of derivations
and call each other as these do.

The main statement `parseAt_ok_iff` joins this with the converse: a text is read as a type exactly
when its tokens derive that type.
-/

namespace Concordance.TypePhrase

/-! ## Where a phrase ends -/

theorem isPhraseWord_eq_false {t : Token} (h : t.kind ≠ .word) : isPhraseWord t = false := by
  simp [isPhraseWord, h]

theorem isWord_eq_false {t : Token} {w : List Char} (h : t.kind ≠ .word) :
    t.isWord w = false := by simp [Token.isWord, h]

/-- Nothing extends a type that is followed by a token of another kind than words and suffixes. -/
theorem ends_of_kind {u : Token} (ts : List Token) (hw : u.kind ≠ .word)
    (hb : u.kind ≠ .brackets) :
    NoWord (u :: ts) ∧ NoSuffix (u :: ts) ∧ NoOr (u :: ts) := by
  simp [isPhraseWord_eq_false hw, hb, show isOr u = false from isWord_eq_false hw]

theorem ends_of_isOr {o : Token} (ts : List Token) (ho : isOr o = true) :
    NoWord (o :: ts) ∧ NoSuffix (o :: ts) := by
  have hor : o.isWord "or".toList = true := ho
  rw [noWord_cons, noSuffix_cons, isPhraseWord, hor, (isWord_text hor).1]
  decide

theorem IsListOf.ne_nil {ws : List Token} (h : IsListOf ws) : ws ≠ [] := by
  cases h <;> simp

theorem IsPrimary.ne_nil {k : Nat} {ts : List Token} {t : TypePhrase} (h : IsPrimary k ts t) :
    ts ≠ [] := by
  cases h with
  | list hw _ => simp [hw.ne_nil]
  | words hne _ _ => exact hne
  | _ => simp

/-- A record does not close before its first field. -/
theorem IsFields.head_kind {k : Nat} {ts us : List Token} {fields : List (String × TypePhrase)}
    (h : IsFields k ts fields) : ∀ c ∈ (ts ++ us).head?, c.kind ≠ .closeBrace := by
  cases h with
  | one hn _ _ => rcases hn with hn | hn <;> simp [hn]
  | more hn _ _ _ _ => rcases hn with hn | hn <;> simp [hn]

theorem IsChoice.ne_nil {k : Nat} {ts : List Token} {alts : List TypePhrase}
    (h : IsChoice k ts alts) : ts ≠ [] := by
  cases h with
  | one h =>
    cases h with
    | mk h _ _ _ => simp [h.ne_nil]
  | more _ _ _ => simp

/-! ## Readers without parts -/

theorem readSuffixes_append {allowed : Nat} {t : TypePhrase} {ss rest : List Token}
    (hs : ∀ s ∈ ss, s.kind = .brackets) (hlen : ss.length ≤ allowed) (hend : NoSuffix rest) :
    readSuffixes allowed t (ss ++ rest) = .ok (suffixed ss.length t, rest) := by
  induction ss generalizing allowed t with
  | nil =>
    cases rest with
    | nil => exact readSuffixes.eq_1 ..
    | cons u rest =>
      have hu := noSuffix_cons.1 hend
      cases allowed with
      | zero => exact (readSuffixes.eq_2 ..).trans (if_neg hu)
      | succ allowed => exact (readSuffixes.eq_3 ..).trans (if_neg hu)
  | cons s ss ih =>
    cases allowed with
    | zero => simp at hlen
    | succ allowed =>
      refine ((readSuffixes.eq_3 ..).trans (if_pos (hs s List.mem_cons_self))).trans ?_
      exact ih (fun s' hs' => hs s' (List.mem_cons_of_mem _ hs')) (by simpa using hlen)

theorem readPhrase_append {ts rest : List Token} (hw : ∀ w ∈ ts, isPhraseWord w = true)
    (hend : NoWord rest) : readPhrase (ts ++ rest) = (phraseOf ts, rest) := by
  have hrest : rest.takeWhile isPhraseWord = [] ∧ rest.dropWhile isPhraseWord = rest := by
    cases rest with
    | nil => simp
    | cons u rest => simp [noWord_cons.1 hend]
  rw [readPhrase, List.takeWhile_append_of_pos hw, List.dropWhile_append_of_pos hw, hrest.1,
    hrest.2, List.append_nil, phraseOf]

theorem readMore_of_noOr {r : Reader} {ts : List Token} (h : NoOr ts) (bound : Nat) :
    readMore r bound ts = .ok ([], ts) := by
  cases bound with
  | zero => rfl
  | succ bound => exact readMore_succ_ok_iff.2 (.inl ⟨rfl, rfl, h⟩)

theorem IsListOf.isPhraseWord {ws : List Token} (h : IsListOf ws) {w : Token} (hw : w ∈ ws) :
    isPhraseWord w = true := by
  have hword : ∀ {t : Token} {cs : List Char}, t.isWord cs = true → cs ≠ "or".toList →
      TypePhrase.isPhraseWord t = true := fun {t cs} ht hne => by
    obtain ⟨hk, htext⟩ := isWord_text ht
    simp [TypePhrase.isPhraseWord, Token.isWord, hk, htext]
    exact hne
  have hlist : ∀ {t : Token}, t.kind = .word ∧ t.text = "List".toList →
      TypePhrase.isPhraseWord t = true := fun {t} ht => by
    simp [TypePhrase.isPhraseWord, Token.isWord, ht.1, ht.2]
  cases h with
  | plain hl ho =>
    simp only [List.mem_cons, List.not_mem_nil, or_false] at hw
    rcases hw with rfl | rfl
    · exact hlist hl
    · exact hword ho (by decide)
  | article ha hl ho =>
    simp only [List.mem_cons, List.not_mem_nil, or_false] at hw
    rcases hw with rfl | rfl | rfl
    · exact ha.elim (hword · (by decide)) (hword · (by decide))
    · exact hlist hl
    · exact hword ho (by decide)

/-- What follows a phrase of words does not make it a list phrase. -/
theorem not_startsListPhrase_append {ts rest : List Token} (hl : ¬StartsListPhrase ts)
    (hend : NoWord rest) : ¬StartsListPhrase (ts ++ rest) := by
  rintro ⟨ws, us, hws, heq⟩
  rcases List.append_eq_append_iff.1 heq with ⟨cs, rfl, hrest⟩ | ⟨cs, rfl, -⟩
  · cases cs with
    | nil => exact hl ⟨ts, [], by simpa using hws, by simp⟩
    | cons c cs =>
      rw [hrest, List.cons_append, noWord_cons] at hend
      simp [hws.isPhraseWord (w := c) (by simp)] at hend
  · exact hl ⟨ws, cs, hws, rfl⟩

theorem readPrimary_word {r : Reader} {w : Token} {ts : List Token}
    (hw : isPhraseWord w = true) : readPrimary r (w :: ts) =
      match afterListPhrase? (w :: ts) with
      | some us => (r us).map fun p => (.list p.1, p.2)
      | none => .ok (readPhrase (w :: ts)) := by
  have hk : w.kind = .word := by simpa using (Bool.and_eq_true_iff.1 hw).1
  simp only [readPrimary, hk, hw, if_true]
  rfl

theorem readPrimary_listOf {r : Reader} {ws : List Token} (hws : IsListOf ws) (ts : List Token) :
    readPrimary r (ws ++ ts) = (r ts).map fun p => (.list p.1, p.2) := by
  have hfound : afterListPhrase? (ws ++ ts) = some ts :=
    afterListPhrase?_eq_some_iff.2 ⟨ws, hws, rfl⟩
  obtain ⟨w, ws, rfl⟩ := List.exists_cons_of_ne_nil hws.ne_nil
  rw [List.cons_append] at hfound ⊢
  rw [readPrimary_word (hws.isPhraseWord List.mem_cons_self), hfound]

/-- The names of the fields to come stay new when the name of a field has been read. -/
theorem fresh_of_notMem {name : String} {names seen : List String} (hnew : name ∉ names)
    (hseen : ∀ m ∈ name :: names, m ∉ seen) : ∀ m ∈ names, m ∉ name :: seen := by
  intro m hm hmem
  rcases List.mem_cons.1 hmem with rfl | hold
  · exact hnew hm
  · exact hseen m (List.mem_cons_of_mem _ hm) hold

/-! ## The readers along a derivation -/

mutual

theorem IsType.read {last : Bool} {k n : Nat} {ts rest : List Token} {t : TypePhrase}
    (h : IsType last k ts t) (hn : n + k = maxLevels) (hw : NoWord rest) (hs : NoSuffix rest)
    (ho : NoOr rest) (hlast : last = true → rest = []) :
    readUnion (alt n) (ts ++ rest) = .ok (t, rest) := by
  match h with
  | .plain h hsole =>
    obtain ⟨a, more, us, heq, ha, -, hm⟩ := h.read hn hw hs ho
    obtain ⟨rfl, rfl⟩ := List.cons.inj heq
    refine readUnion_ok_iff.2 ⟨_, us, _, ?_, hm _ (Nat.le_refl _), rfl⟩
    rcases dropEither_cases (ts ++ rest) with ⟨e, vs, heq, hne, he, -⟩ | ⟨hd, -⟩
    · -- a leading keyword would have to be the last token
      obtain ⟨e', ts', rfl⟩ := List.exists_cons_of_ne_nil h.ne_nil
      obtain ⟨rfl, rfl⟩ := List.cons.inj heq
      obtain ⟨rfl, hl⟩ := hsole _ _ rfl he
      simp [hlast hl] at hne
    · rw [hd, ha]
  | .either he h =>
    obtain ⟨a, more, us, heq, ha, -, hm⟩ := h.read hn hw hs ho
    obtain ⟨rfl, rfl⟩ := List.cons.inj heq
    refine readUnion_ok_iff.2 ⟨_, us, _, ?_, hm _ (Nat.le_refl _), rfl⟩
    rcases dropEither_cases _ with ⟨e, vs, heq, -, -, hd⟩ | ⟨-, hsole⟩
    · rw [hd, ← (List.cons.inj heq).2]
      exact ha
    · have hnil := hsole _ _ rfl he
      exact absurd (List.append_eq_nil_iff.1 hnil).1 h.ne_nil

theorem IsChoice.read {k n : Nat} {ts rest : List Token} {alts : List TypePhrase}
    (h : IsChoice k ts alts) (hn : n + k = maxLevels) (hw : NoWord rest) (hs : NoSuffix rest)
    (ho : NoOr rest) : ∃ t more us, alts = t :: more ∧ alt n (ts ++ rest) = .ok (t, us) ∧
      us.length ≤ (ts ++ rest).length ∧
      ∀ bound, us.length ≤ bound → readMore (alt n) bound us = .ok (more, rest) := by
  match h with
  | .one h =>
    exact ⟨_, [], rest, rfl, h.read hn hw hs, by simp, fun bound _ => readMore_of_noOr ho bound⟩
  | @IsChoice.more _ ts us o t alts h hor hm =>
    obtain ⟨hw', hs'⟩ := ends_of_isOr (us ++ rest) hor
    obtain ⟨t', more, vs, rfl, ht', hlen, hmore⟩ := hm.read hn hw hs ho
    have hread : alt n (ts ++ o :: us ++ rest) = .ok (t, o :: (us ++ rest)) := by
      rw [List.append_assoc]
      exact h.read hn hw' hs'
    refine ⟨t, t' :: more, o :: (us ++ rest), rfl, hread, by simp, fun bound hb => ?_⟩
    cases bound with
    | zero => simp at hb
    | succ bound =>
      have hb' : vs.length ≤ bound := Nat.le_trans hlen (by simpa using hb)
      exact readMore_succ_ok_iff.2 (.inr ⟨o, _, t', vs, more, rfl, hor, ht', hmore _ hb', rfl⟩)

theorem IsAlternative.read {k n : Nat} {ts rest : List Token} {t : TypePhrase}
    (h : IsAlternative k ts t) (hn : n + k = maxLevels) (hw : NoWord rest) (hs : NoSuffix rest) :
    alt n (ts ++ rest) = .ok (t, rest) := by
  match h with
  | @IsAlternative.mk _ ts ss t h hss hk hl =>
    obtain ⟨m, rfl⟩ : ∃ m, n = m + 1 := ⟨n - 1, by omega⟩
    rw [List.append_assoc]
    refine alt_succ_ok_iff.2 ⟨t, ss ++ rest, h.read (by omega) ?_ ?_, ?_⟩
    · cases ss with
      | nil => exact hw
      | cons s ss => exact (noWord_cons.2 (isPhraseWord_eq_false (by simp [hss s])))
    · intro hstart
      cases ss with
      | nil => exact hs
      | cons s ss => exact absurd hstart (hl (by simp))
    · exact readSuffixes_append hss (by omega) hs

theorem IsPrimary.read {k n : Nat} {ts rest : List Token} {t : TypePhrase} (h : IsPrimary k ts t)
    (hn : n + (k + 1) = maxLevels) (hw : NoWord rest)
    (hl : StartsListPhrase ts → NoSuffix rest) :
    readPrimary (alt n) (ts ++ rest) = .ok (t, rest) := by
  match h with
  | @IsPrimary.empty _ o c ho hc =>
    simp only [List.cons_append, readPrimary, if_pos ho]
    exact readRecord_ok_iff.2 (.inl ⟨_, rfl, hc, rfl⟩)
  | @IsPrimary.record _ o c ts fields ho hc h hd =>
    have hfields : readFields (alt n) o (ts ++ c :: rest).length [] (ts ++ c :: rest) =
        .ok (fields, rest) := h.read hn hc hd (by simp) (Nat.le_refl _)
    simp only [List.cons_append, List.append_assoc, List.nil_append, readPrimary, if_pos ho]
    exact readRecord_ok_iff.2 (.inr ⟨h.head_kind, _, hfields, rfl⟩)
  | @IsPrimary.parenthesized _ o c ts _ ho hc h =>
    obtain ⟨hw', hs', ho'⟩ := ends_of_kind rest (u := c) (by simp [hc]) (by simp [hc])
    have hne : o.kind ≠ .openBrace := by simp [ho]
    simp only [List.cons_append, List.append_assoc, List.nil_append, readPrimary, if_neg hne,
      if_pos ho]
    exact readParenthesized_ok_iff.2 ⟨_, h.read hn hw' hs' ho' (by simp), hc⟩
  | @IsPrimary.list _ ws ts t hwords h =>
    have hread := h.read hn hw (hl ⟨ws, ts, hwords, rfl⟩)
    rw [List.append_assoc, readPrimary_listOf hwords]
    exact map_ok_iff.2 ⟨_, hread, rfl⟩
  | .words hne hwords hstart =>
    obtain ⟨w, ws, rfl⟩ := List.exists_cons_of_ne_nil hne
    have hfound := afterListPhrase?_eq_none_iff.2 (not_startsListPhrase_append hstart hw)
    rw [List.cons_append] at hfound ⊢
    rw [readPrimary_word (hwords w List.mem_cons_self), hfound]
    exact congrArg Except.ok (readPhrase_append hwords hw)

theorem IsFields.read {k n bound : Nat} {ts rest : List Token} {c opening : Token}
    {seen : List String} {fields : List (String × TypePhrase)} (h : IsFields k ts fields)
    (hn : n + k = maxLevels) (hc : c.kind = .closeBrace) (hd : (fields.map (·.1)).Nodup)
    (hseen : ∀ m ∈ fields.map (·.1), m ∉ seen) (hb : (ts ++ c :: rest).length ≤ bound) :
    readFields (alt n) opening bound seen (ts ++ c :: rest) = .ok (fields, rest) := by
  match h with
  | .one hname hcolon h =>
    cases bound with
    | zero => simp at hb
    | succ bound =>
      obtain ⟨hw, hs, ho⟩ := ends_of_kind rest (u := c) (by simp [hc]) (by simp [hc])
      exact readFields_succ_ok_iff.2 ⟨_, _, _, _, c, rest,
        readFieldName_ok_iff.2 ⟨_, rfl, hname, rfl, hseen _ (by simp)⟩,
        readColon_ok_iff.2 ⟨_, rfl, hcolon⟩, h.read hn hw hs ho (by simp), .inr ⟨hc, rfl, rfl⟩⟩
  | @IsFields.more _ m d u ts us t fields hname hcolon h hm hr =>
    cases bound with
    | zero => simp at hb
    | succ bound =>
      obtain ⟨hw, hs, ho⟩ := ends_of_kind (us ++ c :: rest) (u := u) (by simp [hm]) (by simp [hm])
      obtain ⟨hnew, hd⟩ := List.nodup_cons.1 hd
      have hread : readFields (alt n) opening bound (String.ofList m.text :: seen)
          (us ++ c :: rest) = .ok (fields, rest) := by
        apply hr.read hn hc hd (fresh_of_notMem hnew hseen)
        simp only [List.length_append, List.length_cons] at hb ⊢
        omega
      have htype := h.read hn hw hs ho (by simp)
      simp only [List.cons_append, List.append_assoc]
      exact readFields_succ_ok_iff.2 ⟨_, _, _, _, u, us ++ c :: rest,
        readFieldName_ok_iff.2 ⟨_, rfl, hname, rfl, hseen _ (by simp)⟩,
        readColon_ok_iff.2 ⟨_, rfl, hcolon⟩, htype, .inl ⟨hm, fields, hread, rfl⟩⟩

end

/-! ## Whole texts -/

/-- With `n` levels a text is read as it is under the primaries that take the other levels. -/
theorem ofTokens_ok_iff_isType {n k : Nat} (hk : n + k = maxLevels) {ts : List Token}
    {t : TypePhrase} : ofTokens n ts = .ok t ↔ IsType true k ts t := by
  constructor
  · exact ofTokens_sound hk
  · intro h
    have hread := h.read hk noWord_nil noSuffix_nil noOr_nil fun _ => rfl
    rw [List.append_nil] at hread
    exact ofTokens_ok_iff.2 hread

theorem parse_ok_iff {text : List Char} {t : TypePhrase} :
    parse text = .ok t ↔ IsType true 0 (Token.scan text) t :=
  ofTokens_ok_iff_isType (Nat.add_zero _)

/-- **The reader accepts its grammar and nothing else.** A text is read as a type exactly when its
tokens derive this type, with no primary around it and no token after it. -/
theorem parseAt_ok_iff (base : Int) (text : List Char) (t : TypePhrase) :
    parseAt base text = .ok t ↔ IsType true 0 (Token.scan text) t := by
  rw [parseAt, mapError_ok_iff, parse_ok_iff]

end Concordance.TypePhrase
