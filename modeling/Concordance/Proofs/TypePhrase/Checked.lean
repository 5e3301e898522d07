import Concordance.Proofs.TypePhrase.Derived

/-!
# Reading with checks

The readers of type phrases build names, records and choices without looking at what they build.
The readers here pass every one of these through its checked constructor, the intermediate ones that
are taken apart again included, and stop at a defect. On the tokens of a text no check ever fails:
the checked readers do what the others do, on texts that write a type and on texts that do not
(`Checked.parse_eq`).
-/

namespace Concordance.TypePhrase

/-- What stops a reader that checks what it builds: a misparse, or a part with a defect. -/
inductive Stop where
  | misparse (m : Misparse)
  | defect (d : Defect)
  deriving DecidableEq, Repr

namespace Checked

/-- A reader that may also stop at a defect. -/
abbrev Reader := List Token → Except Stop (TypePhrase × List Token)

/-- The choice between a type and others, flattened, with the check of its constructor. -/
def join (t : TypePhrase) (ts : List TypePhrase) : Except Defect TypePhrase :=
  match (t :: ts).flatMap alternatives with
  | [u] => .ok u
  | us => union? us

/-- The alternatives after the first; the count bounds them. -/
def readMore (alt : Reader) : Nat → List Token → Except Stop (List TypePhrase × List Token)
  | 0, ts => .ok ([], ts)
  | _ + 1, [] => .ok ([], [])
  | bound + 1, t :: ts =>
    if t.isWord "or".toList then do
      let (a, ts) ← alt ts
      let (more, ts) ← readMore alt bound ts
      return (a :: more, ts)
    else .ok ([], t :: ts)

/-- A choice whose alternatives are read by `alt`. -/
def readUnion (alt : Reader) (ts : List Token) : Except Stop (TypePhrase × List Token) := do
  let (a, ts) ← alt (dropEither ts)
  let (more, ts) ← readMore alt ts.length ts
  let t ← (join a more).mapError .defect
  return (t, ts)

/-- The fields of the record opened at a token, up to its closing brace; the count bounds them. -/
def readFields (alt : Reader) (opening : Token) :
    Nat → (seen : List String) → List Token →
      Except Stop (List (String × TypePhrase) × List Token)
  | 0, _, ts => .error (.misparse ⟨.noFieldName, ts.head?⟩)
  | bound + 1, seen, ts => do
    let (name, ts) ← (readFieldName seen ts).mapError .misparse
    let ts ← (readColon ts).mapError .misparse
    let (t, ts) ← readUnion alt ts
    match ts with
    | [] => .error (.misparse ⟨.openRecord, some opening⟩)
    | u :: ts =>
      if u.kind = .comma then
        let (fields, ts) ← readFields alt opening bound (name :: seen) ts
        return ((name, t) :: fields, ts)
      else if u.kind = .closeBrace then return ([(name, t)], ts)
      else .error (.misparse ⟨.noSeparator, some u⟩)

/-- A record with the check of its constructor. -/
def record (fields : List (String × TypePhrase)) (ts : List Token) :
    Except Stop (TypePhrase × List Token) :=
  ((record? fields).mapError .defect).map fun t => (t, ts)

/-- The record opened at a token. -/
def readRecord (alt : Reader) (opening : Token) (ts : List Token) :
    Except Stop (TypePhrase × List Token) :=
  match ts with
  | [] => .error (.misparse ⟨.noFieldName, none⟩)
  | t :: rest =>
    if t.kind = .closeBrace then record [] rest
    else do
      let (fields, ts) ← readFields alt opening ts.length [] ts
      record fields ts

/-- The words at the start of the tokens, as one phrase. -/
def readPhrase (ts : List Token) : Except Stop (TypePhrase × List Token) :=
  let words := (ts.takeWhile isPhraseWord).map (·.text)
  ((named? (String.ofList ([' '].intercalate words))).mapError .defect).map
    fun t => (t, ts.dropWhile isPhraseWord)

/-- A choice in parentheses, after the opening one. -/
def readParenthesized (alt : Reader) (ts : List Token) :
    Except Stop (TypePhrase × List Token) := do
  let (t, ts) ← readUnion alt ts
  match ts with
  | [] => .error (.misparse ⟨.noCloseParen, none⟩)
  | u :: ts =>
    if u.kind = .closeParen then return (t, ts)
    else .error (.misparse ⟨.noCloseParen, some u⟩)

/-- A primary type whose parts are read by `alt`. -/
def readPrimary (alt : Reader) : Reader
  | [] => .error (.misparse ⟨.noType, none⟩)
  | t :: ts =>
    if t.kind = .openBrace then readRecord alt t ts
    else if t.kind = .openParen then readParenthesized alt ts
    else if isPhraseWord t then
      match afterListPhrase? (t :: ts) with
      | some ts => (alt ts).map fun r => (.list r.1, r.2)
      | none => readPhrase (t :: ts)
    else .error (.misparse ⟨.noType, some t⟩)

/-- An alternative with a number of levels to go. Lists have no check. -/
def alt : (levels : Nat) → Reader
  | 0 => fun ts => .error (.misparse ⟨.tooDeep, ts.head?⟩)
  | levels + 1 => fun ts => do
    let (t, ts) ← readPrimary (alt levels) ts
    (readSuffixes levels t ts).mapError .misparse

/-- The type that a whole list of tokens writes. -/
def ofTokens (levels : Nat) (ts : List Token) : Except Stop TypePhrase := do
  let (t, ts) ← readUnion (alt levels) ts
  match ts with
  | [] => return t
  | u :: _ => .error (.misparse ⟨.trailing, some u⟩)

/-- The type that a text writes. -/
def parse (text : List Char) : Except Stop TypePhrase := ofTokens maxLevels (Token.scan text)

/-! ## No check fails -/

theorem join_of_valid {t : TypePhrase} {ts : List TypePhrase} (h : ∀ u ∈ t :: ts, u.Valid) :
    join t ts = .ok (either t ts) := by
  have hflat := forall_flatMap_alternatives h
  have hne := flatMap_alternatives_ne_nil (h t List.mem_cons_self) ts
  unfold join either
  generalize (t :: ts).flatMap alternatives = us at hflat hne
  match us with
  | [] => exact absurd rfl hne
  | [_] => rfl
  | u :: v :: us =>
    rcases ofAlternatives_cases hne hflat with ⟨w, heq, -⟩ | ⟨-, -, hv⟩
    · cases heq
    · exact union?_of_valid hv

/-- A chain whose steps agree with those of another, up to how the errors are named. -/
theorem bind_eq_mapError {ε ε' α β : Type} {f : ε → ε'} {x : Except ε α} {y : Except ε' α}
    {g : α → Except ε β} {h : α → Except ε' β} (hx : y = x.mapError f)
    (hg : ∀ a, x = .ok a → h a = (g a).mapError f) : y >>= h = (x >>= g).mapError f := by
  rw [hx]
  cases x with
  | error e => rfl
  | ok a => exact hg a rfl

/-- The checked reader does what the other one does on tokens that are well formed. -/
def Agrees (r' : Reader) (r : TypePhrase.Reader) : Prop :=
  ∀ ts : List Token, (∀ w ∈ ts, w.WellFormed) → r' ts = (r ts).mapError .misparse

section Agrees

variable {k : Nat} {r' : Reader} {r : TypePhrase.Reader} (hr : SoundAt k r) (ha : Agrees r' r)
include hr ha

theorem readMore_agrees {bound : Nat} {ts : List Token} (hts : ∀ w ∈ ts, w.WellFormed) :
    readMore r' bound ts = (TypePhrase.readMore r bound ts).mapError .misparse := by
  induction bound generalizing ts with
  | zero => rfl
  | succ bound ih =>
    cases ts with
    | nil => rfl
    | cons t ts =>
      rw [readMore, TypePhrase.readMore]
      split
      · refine bind_eq_mapError (ha ts (List.forall_mem_cons.1 hts).2) ?_
        rintro ⟨a, rest⟩ h
        obtain ⟨us, rfl, -⟩ := hr h
        have hrest := (List.forall_mem_append.1 (List.forall_mem_cons.1 hts).2).2
        exact bind_eq_mapError (ih hrest) fun _ _ => rfl
      · rfl

theorem readUnion_agrees {ts : List Token} (hts : ∀ w ∈ ts, w.WellFormed) :
    readUnion r' ts = (TypePhrase.readUnion r ts).mapError .misparse := by
  have hdrop : ∀ w ∈ dropEither ts, w.WellFormed := by
    rcases dropEither_cases ts with ⟨e, us, rfl, -, -, hd⟩ | ⟨hd, -⟩
    · rw [hd]
      exact (List.forall_mem_cons.1 hts).2
    · rw [hd]
      exact hts
  rw [readUnion, TypePhrase.readUnion]
  refine bind_eq_mapError (ha _ hdrop) ?_
  rintro ⟨a, rest⟩ h
  obtain ⟨us, heq, halt, -⟩ := hr h
  rw [heq] at hdrop
  obtain ⟨hus, hrest⟩ := List.forall_mem_append.1 hdrop
  refine bind_eq_mapError (readMore_agrees hr ha hrest) ?_
  rintro ⟨more, rest'⟩ hmore
  -- what was read is derived, so that its alternatives are valid
  obtain ⟨vs, rfl, hchoice⟩ := readMore_sound hr halt hmore
  have hvs := (List.forall_mem_append.1 hrest).1
  have hvalid := hchoice.valid (List.forall_mem_append.2 ⟨hus, hvs⟩)
  simp only [join_of_valid (validAll_iff.1 hvalid)]
  rfl

theorem readFields_agrees {opening : Token} {bound : Nat} {seen : List String} {ts : List Token}
    (hts : ∀ w ∈ ts, w.WellFormed) : readFields r' opening bound seen ts =
      (TypePhrase.readFields r opening bound seen ts).mapError .misparse := by
  induction bound generalizing seen ts with
  | zero => rfl
  | succ bound ih =>
    rw [readFields, TypePhrase.readFields]
    refine bind_eq_mapError rfl ?_
    rintro ⟨name, us⟩ hname
    obtain ⟨n, rfl, -⟩ := readFieldName_ok_iff.1 hname
    refine bind_eq_mapError rfl fun vs hcolon => ?_
    obtain ⟨c, rfl, -⟩ := readColon_ok_iff.1 hcolon
    have hvs := (List.forall_mem_cons.1 (List.forall_mem_cons.1 hts).2).2
    refine bind_eq_mapError (readUnion_agrees hr ha hvs) ?_
    rintro ⟨t, rest⟩ ht
    obtain ⟨ws, rfl, -⟩ := readUnion_sound hr ht
    have hrest := (List.forall_mem_append.1 hvs).2
    cases rest with
    | nil => rfl
    | cons u rest =>
      dsimp only
      split
      · exact bind_eq_mapError (ih (List.forall_mem_cons.1 hrest).2) fun _ _ => rfl
      · split <;> rfl

theorem readRecord_agrees {opening : Token} {ts : List Token} (hts : ∀ w ∈ ts, w.WellFormed) :
    readRecord r' opening ts = (TypePhrase.readRecord r opening ts).mapError .misparse := by
  cases ts with
  | nil => rfl
  | cons t ts =>
    rw [readRecord, TypePhrase.readRecord]
    split
    · rfl
    · have hmap : ∀ x : Except Misparse (List (String × TypePhrase) × List Token),
          x.map (fun p => (TypePhrase.record p.1, p.2)) =
            x >>= fun p => .ok (.record p.1, p.2) := by
        intro x
        cases x <;> rfl
      rw [hmap]
      refine bind_eq_mapError (readFields_agrees hr ha hts) ?_
      rintro ⟨fields, rest⟩ h
      obtain ⟨us, c, -, -, -, hd, -⟩ := readFields_sound hr h
      simp only [record, record?, if_pos hd]
      rfl

theorem readParenthesized_agrees {ts : List Token} (hts : ∀ w ∈ ts, w.WellFormed) :
    readParenthesized r' ts = (TypePhrase.readParenthesized r ts).mapError .misparse := by
  refine bind_eq_mapError (readUnion_agrees hr ha hts) ?_
  rintro ⟨t, rest⟩ -
  cases rest with
  | nil => rfl
  | cons u rest =>
    dsimp only
    split <;> rfl

end Agrees

/-- A phrase of words is not blank, since it has a word. -/
theorem readPhrase_agrees {t : Token} {ts : List Token} (ht : isPhraseWord t = true)
    (hts : ∀ w ∈ t :: ts, w.WellFormed) :
    readPhrase (t :: ts) = .ok (TypePhrase.readPhrase (t :: ts)) := by
  have hwords : ∀ w ∈ ((t :: ts).takeWhile isPhraseWord).map (·.text), IsWordText w := by
    intro w hw
    obtain ⟨u, hu, rfl⟩ := List.mem_map.1 hw
    have hmem := (List.takeWhile_sublist isPhraseWord).subset hu
    exact (hts u hmem).isWordText (isPhraseWord_iff.1 (List.mem_takeWhile_imp hu)).1
  have hblank := allBlank_intercalate (by simp [ht]) hwords
  simp only [readPhrase, TypePhrase.readPhrase, named?, String.toList_ofList, hblank]
  rfl

theorem readPrimary_agrees {k : Nat} {r' : Reader} {r : TypePhrase.Reader} (hr : SoundAt k r)
    (ha : Agrees r' r) : Agrees (readPrimary r') (TypePhrase.readPrimary r) := by
  intro ts hts
  cases ts with
  | nil => rfl
  | cons t ts =>
    have htail := (List.forall_mem_cons.1 hts).2
    rw [readPrimary, TypePhrase.readPrimary]
    split
    · exact readRecord_agrees hr ha htail
    split
    · exact readParenthesized_agrees hr ha htail
    split
    · next ht =>
      cases hlist : afterListPhrase? (t :: ts) with
      | none => exact readPhrase_agrees ht hts
      | some us =>
        obtain ⟨ws, -, heq⟩ := afterListPhrase?_eq_some_iff.1 hlist
        rw [heq] at hts
        dsimp only
        rw [ha us (List.forall_mem_append.1 hts).2]
        cases r us <;> rfl
    · rfl

theorem alt_agrees {n k : Nat} (hk : n + k = maxLevels) : Agrees (alt n) (TypePhrase.alt n) := by
  induction n generalizing k with
  | zero => exact fun _ _ => rfl
  | succ n ih =>
    intro ts hts
    have hsound : SoundAt (k + 1) (TypePhrase.alt n) := sound_alt (by omega)
    have hprimary := readPrimary_agrees hsound (ih (k := k + 1) (by omega))
    exact bind_eq_mapError (hprimary ts hts) fun _ _ => rfl

/-- **No check fails while a text is read.** -/
theorem parse_eq (text : List Char) : parse text = (TypePhrase.parse text).mapError .misparse := by
  have hts : ∀ w ∈ Token.scan text, w.WellFormed := fun _ => Token.wellFormed_of_mem_scan
  have hk : maxLevels + 0 = maxLevels := Nat.add_zero _
  refine bind_eq_mapError (readUnion_agrees (sound_alt hk) (alt_agrees hk) hts) ?_
  rintro ⟨t, rest⟩ -
  cases rest <;> rfl

end Checked

end Concordance.TypePhrase
