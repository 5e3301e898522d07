import Concordance.Proofs.TypePhrase.Derived
import Concordance.Proofs.TypePhrase.Spacing
import Mathlib.Data.List.Chain

/-!
# How deep a type that was read nests

A level is taken by every primary that is open and by every suffix that follows it, but the levels
of the suffixes are given back where a primary ends: what is inside parentheses or a record may
have suffixes of its own. So the cap on levels does not cap the type. Lists and records nest at
most as deep as the levels that are left add up to, which is reached (`exists_parseAt_depth`);
where no suffix follows a closing bracket the cap itself is the bound (`depth_le_of_parseAt`).
-/

namespace Concordance.TypePhrase

mutual
/-- How many lists and records are inside each other, along the deepest path. -/
def depth : TypePhrase → Nat
  | .named _ => 0
  | .list element => 1 + depth element
  | .record fields => 1 + fieldDepth fields
  | .union ts => alternativeDepth ts

/-- The depth of the deepest field. -/
def fieldDepth : List (String × TypePhrase) → Nat
  | [] => 0
  | (_, t) :: fields => max (depth t) (fieldDepth fields)

/-- The depth of the deepest alternative. -/
def alternativeDepth : List TypePhrase → Nat
  | [] => 0
  | t :: ts => max (depth t) (alternativeDepth ts)
end

mutual
/-- How many phrases of any kind are inside each other: what a function that follows the phrase
down to its names recurses through. -/
def height : TypePhrase → Nat
  | .named _ => 1
  | .list element => 1 + height element
  | .record fields => 1 + fieldHeight fields
  | .union ts => 1 + alternativeHeight ts

/-- The height of the highest field. -/
def fieldHeight : List (String × TypePhrase) → Nat
  | [] => 0
  | (_, t) :: fields => max (height t) (fieldHeight fields)

/-- The height of the highest alternative. -/
def alternativeHeight : List TypePhrase → Nat
  | [] => 0
  | t :: ts => max (height t) (alternativeHeight ts)
end

/-- What `n` levels add up to. -/
def deepest (n : Nat) : Nat := n * (n + 1) / 2

theorem deepest_succ (n : Nat) : deepest (n + 1) = deepest n + (n + 1) := by
  have hsum : (n + 1) * (n + 1 + 1) = n * (n + 1) + 2 * (n + 1) := by
    rw [← Nat.add_mul, Nat.mul_comm]
  unfold deepest
  omega

/-- Two tokens next to each other are not a closing bracket and a suffix. -/
def Bare (c s : Token) : Prop :=
  c.kind = .closeParen ∨ c.kind = .closeBrace → s.kind ≠ .brackets

instance : DecidableRel Bare := fun c s => by unfold Bare; infer_instance

/-! ## The depth of parts -/

theorem alternativeDepth_append (ts us : List TypePhrase) :
    alternativeDepth (ts ++ us) = max (alternativeDepth ts) (alternativeDepth us) := by
  induction ts with
  | nil => simp [alternativeDepth]
  | cons t ts ih => simp only [List.cons_append, alternativeDepth, ih, Nat.max_assoc]

@[simp] theorem alternativeDepth_alternatives (t : TypePhrase) :
    alternativeDepth t.alternatives = t.depth := by
  cases t <;> simp [alternatives, alternativeDepth, depth]

theorem depth_ofAlternatives (ts : List TypePhrase) :
    (ofAlternatives ts).depth = alternativeDepth ts := by
  unfold ofAlternatives
  split
  · simp [alternativeDepth]
  · rfl

/-- A choice is as deep as its deepest part. -/
theorem depth_either (t : TypePhrase) (ts : List TypePhrase) :
    (either t ts).depth = alternativeDepth (t :: ts) := by
  rw [either, depth_ofAlternatives]
  induction t :: ts with
  | nil => rfl
  | cons u us ih =>
    rw [List.flatMap_cons, alternativeDepth_append, ih, alternativeDepth_alternatives]
    rfl

theorem depth_suffixed (n : Nat) (t : TypePhrase) : (suffixed n t).depth = n + t.depth := by
  induction n generalizing t with
  | zero => simp [suffixed]
  | succ n ih =>
    rw [suffixed, ih, depth]
    omega

mutual

/-- Between two lists or records of a valid phrase there is at most one choice. -/
theorem Valid.height_le (t : TypePhrase) (h : t.Valid) :
    t.height + (if t.isUnion then 0 else 1) ≤ 2 * t.depth + 2 := by
  match t with
  | .named _ => simp [height, isUnion]
  | .list element =>
    have := Valid.height_le element h
    simp only [height, depth, isUnion]
    split at this <;> grind
  | .record fields =>
    have := ValidFields.height_le fields h.2
    simp only [height, depth, isUnion]
    grind
  | .union ts =>
    have := ValidAll.height_le ts h.2.2 h.2.1
    simp only [height, depth, isUnion]
    grind

theorem ValidFields.height_le (fields : List (String × TypePhrase)) (h : ValidFields fields) :
    fieldHeight fields ≤ 2 * fieldDepth fields + 2 := by
  match fields with
  | [] => simp [fieldHeight]
  | (_, t) :: fields =>
    have ht := Valid.height_le t h.1
    have hfields := ValidFields.height_le fields h.2
    simp only [fieldHeight, fieldDepth]
    omega

theorem ValidAll.height_le (ts : List TypePhrase) (h : ValidAll ts)
    (hflat : ts.any isUnion = false) : alternativeHeight ts ≤ 2 * alternativeDepth ts + 1 := by
  match ts with
  | [] => simp [alternativeHeight]
  | t :: ts =>
    rw [List.any_cons, Bool.or_eq_false_iff] at hflat
    have ht := Valid.height_le t h.1
    have hts := ValidAll.height_le ts h.2 hflat.2
    rw [hflat.1] at ht
    simp only [alternativeHeight, alternativeDepth]
    grind

end

/-! ## The depth of what is derived -/

mutual

/-- With `n` levels left a type nests as deep as these add up to. -/
theorem IsType.depth_le {last : Bool} {k n : Nat} {ts : List Token} {t : TypePhrase}
    (h : IsType last k ts t) (hn : n + k = maxLevels) : t.depth ≤ deepest n := by
  match h with
  | .plain h _ =>
    rw [depth_either]
    exact h.depth_le hn
  | .either _ h =>
    rw [depth_either]
    exact h.depth_le hn

theorem IsChoice.depth_le {k n : Nat} {ts : List Token} {alts : List TypePhrase}
    (h : IsChoice k ts alts) (hn : n + k = maxLevels) : alternativeDepth alts ≤ deepest n := by
  match h with
  | .one h => exact Nat.max_le.2 ⟨h.depth_le hn, Nat.zero_le _⟩
  | .more h _ hm => exact Nat.max_le.2 ⟨h.depth_le hn, hm.depth_le hn⟩

theorem IsAlternative.depth_le {k n : Nat} {ts : List Token} {t : TypePhrase}
    (h : IsAlternative k ts t) (hn : n + k = maxLevels) : t.depth ≤ deepest n := by
  match n, h with
  | 0, .mk _ _ hk _ => omega
  | n + 1, .mk h _ hk _ =>
    have := h.depth_le (n := n) (by omega)
    rw [depth_suffixed, deepest_succ]
    omega

theorem IsPrimary.depth_le {k n : Nat} {ts : List Token} {t : TypePhrase} (h : IsPrimary k ts t)
    (hn : n + (k + 1) = maxLevels) : t.depth ≤ 1 + deepest n := by
  match h with
  | .empty _ _ => simp [depth, fieldDepth]
  | .record _ _ h _ => exact Nat.add_le_add_left (h.depth_le hn) 1
  | .parenthesized _ _ h => exact (h.depth_le hn).trans (Nat.le_add_left _ _)
  | .list _ h => exact Nat.add_le_add_left (h.depth_le hn) 1
  | .words _ _ _ => simp [phraseOf, depth]

theorem IsFields.depth_le {k n : Nat} {ts : List Token} {fields : List (String × TypePhrase)}
    (h : IsFields k ts fields) (hn : n + k = maxLevels) : fieldDepth fields ≤ deepest n := by
  match h with
  | .one _ _ h => exact Nat.max_le.2 ⟨h.depth_le hn, Nat.zero_le _⟩
  | .more _ _ h _ hr => exact Nat.max_le.2 ⟨h.depth_le hn, hr.depth_le hn⟩

end

/-- A primary with a suffix after it, both without a suffix after a closing bracket, is a phrase of
words unless it starts like a list phrase. -/
theorem IsPrimary.depth_of_bare {k : Nat} {ts ss : List Token} {t : TypePhrase}
    (h : IsPrimary k ts t) (hl : ¬StartsListPhrase ts) (hne : ss ≠ [])
    (hs : ∀ s ∈ ss, s.kind = .brackets) (hbare : (ts ++ ss).IsChain Bare) : t.depth = 0 := by
  obtain ⟨s, ss, rfl⟩ := List.exists_cons_of_ne_nil hne
  have hclose : ∀ us c, ts = us ++ [c] → ¬(c.kind = .closeParen ∨ c.kind = .closeBrace) := by
    rintro us c rfl hc
    have hnext : Bare c s := (List.isChain_append.1 hbare).2.2 c (by simp) s rfl
    exact hnext hc (hs s List.mem_cons_self)
  cases h with
  | @empty _ o c _ hc => exact absurd (.inr hc) (hclose [o] c rfl)
  | @record _ o c us _ _ hc _ _ => exact absurd (.inr hc) (hclose (o :: us) c rfl)
  | @parenthesized _ o c us _ _ hc _ => exact absurd (.inl hc) (hclose (o :: us) c rfl)
  | list hw _ => exact absurd ⟨_, _, hw, rfl⟩ hl
  | words _ _ _ => rfl

mutual

/-- Where no suffix follows a closing bracket a type nests no deeper than the levels left. -/
theorem IsType.depth_le_of_bare {last : Bool} {k n : Nat} {ts : List Token} {t : TypePhrase}
    (h : IsType last k ts t) (hn : n + k = maxLevels) (hbare : ts.IsChain Bare) : t.depth ≤ n := by
  match h with
  | .plain h _ =>
    rw [depth_either]
    exact h.depth_le_of_bare hn hbare
  | .either _ h =>
    rw [depth_either]
    exact h.depth_le_of_bare hn hbare.tail

theorem IsChoice.depth_le_of_bare {k n : Nat} {ts : List Token} {alts : List TypePhrase}
    (h : IsChoice k ts alts) (hn : n + k = maxLevels) (hbare : ts.IsChain Bare) :
    alternativeDepth alts ≤ n := by
  match h with
  | .one h => exact Nat.max_le.2 ⟨h.depth_le_of_bare hn hbare, Nat.zero_le _⟩
  | .more h _ hm =>
    have hmore := hbare.right_of_append.tail
    exact Nat.max_le.2 ⟨h.depth_le_of_bare hn hbare.left_of_append, hm.depth_le_of_bare hn hmore⟩

theorem IsAlternative.depth_le_of_bare {k n : Nat} {ts : List Token} {t : TypePhrase}
    (h : IsAlternative k ts t) (hn : n + k = maxLevels) (hbare : ts.IsChain Bare) :
    t.depth ≤ n := by
  match n, h with
  | 0, .mk _ _ hk _ => omega
  | n + 1, @IsAlternative.mk _ _ [] _ h _ _ _ =>
    have := h.depth_le_of_bare (n := n) (by omega) hbare.left_of_append
    rw [depth_suffixed, List.length_nil]
    omega
  | n + 1, @IsAlternative.mk _ _ (s :: ss) _ h hs hk hl =>
    have := h.depth_of_bare (hl (List.cons_ne_nil _ _)) (List.cons_ne_nil _ _) hs hbare
    rw [depth_suffixed, this]
    omega

theorem IsPrimary.depth_le_of_bare {k n : Nat} {ts : List Token} {t : TypePhrase}
    (h : IsPrimary k ts t) (hn : n + (k + 1) = maxLevels) (hbare : ts.IsChain Bare) :
    t.depth ≤ 1 + n := by
  match h with
  | .empty _ _ => simp [depth, fieldDepth]
  | .record _ _ h _ =>
    exact Nat.add_le_add_left (h.depth_le_of_bare hn hbare.tail.left_of_append) 1
  | .parenthesized _ _ h =>
    exact (h.depth_le_of_bare hn hbare.tail.left_of_append).trans (Nat.le_add_left _ _)
  | .list _ h => exact Nat.add_le_add_left (h.depth_le_of_bare hn hbare.right_of_append) 1
  | .words _ _ _ => simp [phraseOf, depth]

theorem IsFields.depth_le_of_bare {k n : Nat} {ts : List Token}
    {fields : List (String × TypePhrase)} (h : IsFields k ts fields) (hn : n + k = maxLevels)
    (hbare : ts.IsChain Bare) : fieldDepth fields ≤ n := by
  have hrest := hbare.tail.tail
  match h with
  | .one _ _ h => exact Nat.max_le.2 ⟨h.depth_le_of_bare hn hrest, Nat.zero_le _⟩
  | .more _ _ h _ hr =>
    have hmore := hrest.right_of_append.tail
    exact Nat.max_le.2 ⟨h.depth_le_of_bare hn hrest.left_of_append, hr.depth_le_of_bare hn hmore⟩

end

/-! ## The bound is reached -/

/-- The text leaves the marks of the tokens, whatever stands behind it. -/
def Writes (w : List Char) (ts : List Token) : Prop :=
  ∀ rest, marks (w ++ rest) = ts.map Token.mark ++ marks rest

/-- A list suffix. -/
def suffixToken : Token := ⟨.brackets, "[]".toList, 0⟩

theorem writes_suffixes (n : Nat) :
    Writes (List.replicate n "[]".toList).flatten (List.replicate n suffixToken) := by
  intro rest
  induction n with
  | zero => rfl
  | succ n ih =>
    have hsuffix : IsBracketsText "[]".toList := ⟨[], by simp, rfl⟩
    rw [List.replicate_succ, List.flatten_cons, List.append_assoc, marks_brackets hsuffix, ih]
    rfl

theorem Writes.append {w v : List Char} {ts us : List Token} (hw : Writes w ts)
    (hv : Writes v us) : Writes (w ++ v) (ts ++ us) := by
  intro rest
  rw [List.append_assoc, hw, hv, List.map_append, List.append_assoc]

/-- The tokens start with an opening brace. -/
def StartsRecord (ts : List Token) : Prop := ∃ o us, ts = o :: us ∧ o.kind = .openBrace

/-- What starts as a record is a type on its own. -/
theorem IsAlternative.isType_of_startsRecord {last : Bool} {k : Nat} {ts : List Token}
    {t : TypePhrase} (h : IsAlternative k ts t) (hstart : StartsRecord ts) :
    IsType last k ts (either t []) := by
  obtain ⟨o, us, rfl, ho⟩ := hstart
  refine (IsChoice.one h).isType ⟨o, us, rfl, isEither_eq_false ?_⟩
  rw [ho]
  decide

/-- A record takes all suffixes that its level allows. -/
theorem IsPrimary.exists_suffixed {k n : Nat} {w : List Char} {ts : List Token} {t : TypePhrase}
    (h : IsPrimary k ts t) (hstart : StartsRecord ts) (hw : Writes w ts)
    (hn : n + 1 + k = maxLevels) :
    ∃ v us, StartsRecord us ∧ Writes v us ∧ IsAlternative k us (suffixed n t) := by
  obtain ⟨o, vs, rfl, ho⟩ := hstart
  have hl : ¬StartsListPhrase (o :: vs) := fun hl => by
    have hword := startsListPhrase_cons hl
    simp [ho] at hword
  have hlen : (List.replicate n suffixToken).length = n := List.length_replicate
  have halt : IsAlternative k (o :: vs ++ List.replicate n suffixToken)
      (suffixed (List.replicate n suffixToken).length t) :=
    .mk h (by simp [suffixToken]) (by omega) fun _ => hl
  rw [hlen] at halt
  exact ⟨_, _, ⟨o, _, rfl, ho⟩, hw.append (writes_suffixes n), halt⟩

/-- Records inside records, each with all suffixes that its level allows. -/
theorem exists_isAlternative_depth {k n : Nat} (hn : n + 1 + k = maxLevels) :
    ∃ w ts t, StartsRecord ts ∧ Writes w ts ∧ IsAlternative k ts t ∧
      t.depth = deepest (n + 1) := by
  induction n generalizing k with
  | zero =>
    have hprimary : IsPrimary k [⟨.openBrace, ['{'], 0⟩, ⟨.closeBrace, ['}'], 0⟩] (.record []) :=
      .empty rfl rfl
    have hwrites : Writes "{}".toList [⟨.openBrace, ['{'], 0⟩, ⟨.closeBrace, ['}'], 0⟩] :=
      fun rest => (marks_single (by decide) rfl).trans
        (congrArg _ (marks_single (by decide) rfl))
    obtain ⟨w, ts, hstart, hw, h⟩ := hprimary.exists_suffixed ⟨_, _, rfl, rfl⟩ hwrites hn
    exact ⟨w, ts, _, hstart, hw, h, rfl⟩
  | succ n ih =>
    obtain ⟨w, ts, t, hstart, hw, h, hd⟩ := ih (k := k + 1) (by omega)
    have hprimary : IsPrimary k _ (.record [(String.ofList ['f'], either t [])]) :=
      .record (o := ⟨.openBrace, ['{'], 0⟩) (c := ⟨.closeBrace, ['}'], 0⟩) rfl rfl
        (.one (n := ⟨.word, ['f'], 0⟩) (c := ⟨.colon, [':'], 0⟩) (.inl rfl) rfl
          (h.isType_of_startsRecord hstart)) (by simp)
    have hopen : Writes "\x7bf:".toList
        [⟨.openBrace, ['{'], 0⟩, ⟨.word, ['f'], 0⟩, ⟨.colon, [':'], 0⟩] := fun rest => by
      have hcolon : marks (':' :: rest) = (.colon, [':']) :: marks rest :=
        marks_single (by decide) rfl
      have hword : marks ('f' :: ':' :: rest) = (.word, ['f']) :: marks (':' :: rest) :=
        marks_word (w := ['f']) (by decide) (endsWord_punctuation (by decide) rest)
      exact (marks_single (by decide) rfl).trans (congrArg _ (hword.trans (congrArg _ hcolon)))
    have hclose : Writes "\x7d".toList [⟨.closeBrace, ['}'], 0⟩] := fun rest =>
      marks_single (by decide) rfl
    obtain ⟨v, ts, hstart, hv, h⟩ := hprimary.exists_suffixed ⟨_, _, rfl, rfl⟩
      (hopen.append (hw.append hclose)) hn
    refine ⟨v, ts, _, hstart, hv, h, ?_⟩
    simp only [depth_suffixed, depth, fieldDepth, depth_either, alternativeDepth, hd,
      deepest_succ (n + 1)]
    omega

/-- There is a text of a type as deep as the levels add up to. -/
theorem exists_parseAt_depth (base : Int) :
    ∃ text t, parseAt base text = .ok t ∧ t.depth = maxLevels * (maxLevels + 1) / 2 := by
  obtain ⟨text, ts, t, hstart, hw, h, hd⟩ := exists_isAlternative_depth (k := 0) (n := 63) rfl
  have htype : IsType true 0 ts (either t []) := h.isType_of_startsRecord hstart
  have hmarks : (Token.scan text).map Token.mark = ts.map Token.mark :=
    marks_of_append_nil (hw [])
  refine ⟨text, either t [], (parseAt_ok_iff base text _).2 (htype.congr hmarks), ?_⟩
  rw [depth_either]
  simp [alternativeDepth, hd, deepest, maxLevels]

/-! ## Texts -/

/-- **How deep an accepted type nests.** Lists and records nest as deep as the levels add up to, and
what follows the type down to its names recurses at most twice as deep as these. A text in which no
suffix follows a closing bracket writes a type that nests no deeper than the cap; other texts reach
what the levels add up to, so this bound is the least one. -/
theorem depth_le_of_parseAt (base : Int) :
    (∀ text t, parseAt base text = .ok t →
      t.depth ≤ maxLevels * (maxLevels + 1) / 2 ∧ t.height ≤ 2 * t.depth + 2 ∧
        ((Token.scan text).IsChain Bare → t.depth ≤ maxLevels)) ∧
      ∃ text t, parseAt base text = .ok t ∧ t.depth = maxLevels * (maxLevels + 1) / 2 := by
  refine ⟨fun text t h => ?_, exists_parseAt_depth base⟩
  have htype := (parseAt_ok_iff base text t).1 h
  have hvalid := htype.valid fun _ => Token.wellFormed_of_mem_scan
  exact ⟨htype.depth_le (Nat.add_zero _), (Nat.le_add_right _ _).trans hvalid.height_le,
    htype.depth_le_of_bare (Nat.add_zero _)⟩

/-- A list of lists in parentheses with a suffix after them. -/
theorem depth_le_of_parseAt_suffix :
    parseAt 0 "(A[][])[]".toList = .ok (suffixed 3 (.named "A")) ∧
      (suffixed 3 (.named "A")).depth ≤ maxLevels * (maxLevels + 1) / 2 := by
  have h : parseAt 0 "(A[][])[]".toList = .ok (suffixed 3 (.named "A")) := by decide +kernel
  exact ⟨h, ((depth_le_of_parseAt 0).1 _ _ h).1⟩

/-- Parentheses give the levels of the suffixes inside them back: the cap is exceeded. -/
theorem depth_gt_maxLevels_parenthesized :
    ∃ t, parseAt 0 ("(A[][])".toList ++ (List.replicate 63 "[]".toList).flatten) = .ok t ∧
      maxLevels < t.depth :=
  ⟨suffixed 65 (.named "A"), by decide +kernel, by decide +kernel⟩

end Concordance.TypePhrase
