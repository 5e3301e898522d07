import Concordance.Proofs.Json.Order
import Concordance.Proofs.Numbering.Text

/-!
# Values are read back

The stored form of a value is read as that value with its members in order (`Readable.readsBack`).
Strings and whole numbers are read back as they are; of a fractional number it is assumed that the
reader takes its text for the number (`Faithful`), which is what the search for its shortest
digits is for. The reader's fuel is a bound on the length of what it reads, and its levels bound the
height of the value.
-/

namespace Concordance.Json

/-! ## Blanks -/

theorem skip_cons {c : Char} (h : isGap c = false) (cs : List Char) : skip (c :: cs) = c :: cs :=
  List.dropWhile_cons_of_neg (by simp [h])

theorem skip_skip (cs : List Char) : skip (skip cs) = skip cs := by
  induction cs with
  | nil => rfl
  | cons c cs ih =>
    cases h : isGap c with
    | true =>
      have hskip : skip (c :: cs) = skip cs := List.dropWhile_cons_of_pos h
      rw [hskip, ih]
    | false => rw [skip_cons h, skip_cons h]

theorem skip_newline (l : Layout) (level : Nat) (cs : List Char) :
    skip (l.newline level ++ cs) = skip cs := by
  have hblank : ∀ n, skip (List.replicate n ' ' ++ cs) = skip cs := by
    intro n
    induction n with
    | zero => rfl
    | succ n ih => rw [← ih]; rfl
  cases l with
  | compact => rfl
  | indented => exact hblank (2 * level)

section Skip

variable (range : Range) (fuel levels : Nat) (cs : List Char)

theorem readValue_skip :
    readValue range fuel levels (skip cs) = readValue range fuel levels cs := by
  cases fuel with
  | zero => rfl
  | succ fuel => rw [readValue, readValue, skip_skip]

theorem readItems_skip :
    readItems range fuel levels (skip cs) = readItems range fuel levels cs := by
  cases fuel with
  | zero => rfl
  | succ fuel => rw [readItems, readItems, readValue_skip]

theorem readMembers_skip :
    readMembers range fuel levels (skip cs) = readMembers range fuel levels cs := by
  cases fuel with
  | zero => rfl
  | succ fuel => rw [readMembers, readMembers, skip_skip]

variable (l : Layout) (level : Nat)

theorem readValue_newline :
    readValue range fuel levels (l.newline level ++ cs) = readValue range fuel levels cs := by
  rw [← readValue_skip, skip_newline, readValue_skip]

end Skip

/-! ## Strings -/

theorem unit?_hex {n : Nat} (h : n < 32) :
    unit? (Text.hexDigit (n / 16 / 16 / 16 % 16)) (Text.hexDigit (n / 16 / 16 % 16))
      (Text.hexDigit (n / 16 % 16)) (Text.hexDigit (n % 16)) = some n := by
  revert n
  decide

theorem readString_control (acc : List Char) {c : Char} (h : c.toNat < 32) (cs : List Char) :
    readString acc ('\\' :: 'u' :: Text.hex 4 c.toNat ++ cs) = readString (c :: acc) cs := by
  have hunit : ofUnit? c.toNat = some c := by
    rw [ofUnit?, if_neg (by omega), Char.ofNat_toNat]
  simp only [Text.hex, List.nil_append, List.cons_append]
  rw [readString, unit?_hex h]
  simp only [hunit]

theorem readString_plain (acc : List Char) {c : Char} (hq : c ≠ '\x22') (hb : c ≠ '\\')
    (h : 32 ≤ c.toNat) (cs : List Char) :
    readString acc (c :: cs) = readString (c :: acc) cs := by
  rw [readString.eq_def]
  split
  · next heq => cases heq
  · next heq => exact absurd (List.cons.inj heq).1 hq
  · next heq => exact absurd (List.cons.inj heq).1 hb
  · next heq => exact absurd (List.cons.inj heq).1 hb
  · next heq =>
    obtain ⟨rfl, rfl⟩ := List.cons.inj heq
    rw [if_neg]
    rintro (hlt | heq)
    · omega
    · exact hb heq

theorem readString_printChar (acc : List Char) (c : Char) (cs : List Char) :
    readString acc (printChar c ++ cs) = readString (c :: acc) cs := by
  unfold printChar
  split
  · next h => subst h; rfl
  split
  · next h => subst h; rfl
  split
  · next h => subst h; rfl
  split
  · next h => subst h; rfl
  split
  · next h => subst h; rfl
  split
  · next h => subst h; rfl
  split
  · next h => subst h; rfl
  split
  · next h => exact readString_control acc h cs
  · next hq hb _ _ _ _ _ h => exact readString_plain acc hq hb (by omega) cs

theorem readString_print (s acc rest : List Char) :
    readString acc (s.flatMap printChar ++ '\x22' :: rest) = some (acc.reverse ++ s, rest) := by
  induction s generalizing acc with
  | nil =>
    rw [List.append_nil]
    rfl
  | cons c s ih =>
    rw [List.flatMap_cons, List.append_assoc, readString_printChar, ih, List.reverse_cons,
      List.append_assoc]
    rfl

theorem readValue_string (range : Range) (fuel levels : Nat) (s : String) (rest : List Char) :
    readValue range (fuel + 1) levels (printString s ++ rest) = some (.string s, rest) := by
  have htext : printString s ++ rest =
      '\x22' :: (s.toList.flatMap printChar ++ '\x22' :: rest) := by simp [printString]
  have hgap : isGap '\x22' = false := by decide
  simp only [htext, readValue, skip_cons hgap, readString_print, Option.map_some,
    List.reverse_nil, List.nil_append, String.ofList_toList]

/-! ## Whole numbers -/

/-- A text does not go on with a number. -/
def EndsNumber (cs : List Char) : Prop :=
  ∀ c ∈ cs.head?, c.isDigit = false ∧ c ≠ '.' ∧ c ≠ 'e' ∧ c ≠ 'E'

theorem forall_isDigit_toDigits (n : Nat) : ∀ c ∈ Nat.toDigits 10 n, c.isDigit = true := by
  intro c hc
  exact Nat.isDigit_of_mem_toDigits (by omega) (by omega) hc

theorem head?_toDigits {n : Nat} (h : 0 < n) : (Nat.toDigits 10 n).head? ≠ some '0' := by
  induction n using Nat.strongRecOn with
  | ind n ih =>
    by_cases hn : n < 10
    · rw [Nat.toDigits_of_lt_base hn]
      simpa using by omega
    · rw [Nat.toDigits_of_base_le (by omega) (by omega),
        List.head?_append_of_ne_nil _ Nat.toDigits_ne_nil]
      exact ih (n / 10) (by omega) (by omega)

theorem spanDigits_append {ds rest : List Char} (hds : ∀ c ∈ ds, c.isDigit = true)
    (hr : EndsNumber rest) : spanDigits (ds ++ rest) = (ds, rest) := by
  have hrest : rest.takeWhile Char.isDigit = [] ∧ rest.dropWhile Char.isDigit = rest := by
    cases rest with
    | nil => exact ⟨rfl, rfl⟩
    | cons c cs => simp [(hr c rfl).1]
  rw [spanDigits, List.takeWhile_append_of_pos hds, List.dropWhile_append_of_pos hds, hrest.1,
    hrest.2, List.append_nil]

theorem readNumber_toDigits (negative : Bool) (n : Nat) {rest : List Char} (hr : EndsNumber rest) :
    readNumber .word negative (Nat.toDigits 10 n ++ rest) =
      (whole? .word negative n).map (·, rest) := by
  have hdigits := forall_isDigit_toDigits n
  have hzero : ((Nat.toDigits 10 n).isEmpty || ((Nat.toDigits 10 n).head? == some '0' &&
      (Nat.toDigits 10 n).length ≠ 1)) = false := by
    by_cases hn : n = 0
    · subst hn
      rfl
    · simp [Nat.toDigits_ne_nil, head?_toDigits (Nat.pos_of_ne_zero hn)]
  have hfraction : readFraction rest = some (none, rest) := by
    cases rest with
    | nil => rfl
    | cons c cs =>
      unfold readFraction
      split
      · next heq => exact absurd (List.cons.inj heq).1 (hr c rfl).2.1
      · rfl
  have hexponent : readExponent rest = some (none, rest) := by
    cases rest with
    | nil => rfl
    | cons c cs =>
      rw [readExponent.eq_def]
      dsimp only
      rw [if_neg]
      rintro (h | h)
      · exact (hr c rfl).2.2.1 h
      · exact (hr c rfl).2.2.2 h
  have hvalue : digitsValue (Nat.toDigits 10 n) = n := Nat.ofDigitChars_ten_toDigits
  simp only [readNumber, spanDigits_append hdigits hr, hfraction, hexponent, hvalue, hzero, bind,
    Option.bind]
  cases whole? .word negative n <;> rfl

theorem readValue_digit {c : Char} (hc : c.isDigit = true) (range : Range) (fuel levels : Nat)
    (cs : List Char) :
    readValue range (fuel + 1) levels (c :: cs) = readNumber range false (c :: cs) := by
  have hgap : isGap c = false := by
    cases h : isGap c with
    | false => rfl
    | true =>
      simp only [isGap, Bool.or_eq_true, decide_eq_true_eq] at h
      rcases h with ((rfl | rfl) | rfl) | rfl <;> exact absurd hc (by decide)
  rw [readValue, skip_cons hgap]
  split
  case h_8 => rfl
  all_goals
    next heq =>
      obtain ⟨rfl, -⟩ := List.cons.inj heq
      exact absurd hc (by decide)

/-- A whole number of at most 64 bits is read back. -/
theorem readValue_int {n : Int} (hn : fitsWord n = true) (fuel levels : Nat) {rest : List Char}
    (hr : EndsNumber rest) :
    readValue .word (fuel + 1) levels ((toString n).toList ++ rest) = some (.int n, rest) := by
  cases n with
  | ofNat n =>
    have htext : (toString (Int.ofNat n)).toList = Nat.toDigits 10 n := Numbering.decimal_natCast n
    have hdigits := forall_isDigit_toDigits n
    obtain ⟨c, cs, hcs⟩ := List.exists_cons_of_ne_nil (Nat.toDigits_ne_nil (n := n) (b := 10))
    have hnumber := readNumber_toDigits false n hr
    rw [hcs] at hdigits hnumber
    rw [htext, hcs, List.cons_append, readValue_digit (hdigits c List.mem_cons_self),
      ← List.cons_append, hnumber]
    have hwhole : whole? .word false n = some (.int n) := if_pos hn
    rw [hwhole]
    rfl
  | negSucc n =>
    have htext : (toString (Int.negSucc n)).toList = '-' :: Nat.toDigits 10 (n + 1) := by
      have hrepr : toString (Int.negSucc n) = "-" ++ (n + 1).repr := rfl
      rw [hrepr, String.toList_append, Nat.toList_repr]
      rfl
    rw [htext]
    change readNumber .word true (Nat.toDigits 10 (n + 1) ++ rest) = _
    rw [readNumber_toDigits true (n + 1) hr]
    have hneg : -((n + 1 : Nat) : Int) = Int.negSucc n := rfl
    have hwhole : whole? .word true (n + 1) = some (.int (Int.negSucc n)) := by
      simp only [whole?, if_true, hneg, hn]
    rw [hwhole]
    rfl

/-! ## Arrays and objects -/

section Brackets

variable {range : Range} {fuel levels : Nat} {cs rest : List Char}

/-- No item starts with the bracket that closes an array. -/
theorem readItems_close (h : skip cs = ']' :: rest) : readItems range fuel levels cs = none := by
  cases fuel with
  | zero => rfl
  | succ fuel =>
    have hvalue : readValue range fuel levels cs = none := by
      cases fuel with
      | zero => rfl
      | succ fuel => rw [readValue, h]; rfl
    rw [readItems, hvalue]

/-- No member starts with the brace that closes an object. -/
theorem readMembers_close (h : skip cs = '}' :: rest) :
    readMembers range fuel levels cs = none := by
  cases fuel with
  | zero => rfl
  | succ fuel => rw [readMembers, h]; rfl

theorem readValue_array {vs : List Json} (h : readItems range fuel levels cs = some (vs, rest)) :
    readValue range (fuel + 1) (levels + 1) ('[' :: cs) = some (.array vs, rest) := by
  have hgap : isGap '[' = false := by decide
  simp only [readValue, skip_cons hgap]
  split
  · next heq => cases heq
  · next hskip => rw [readItems_close hskip] at h; cases h
  · next heq _ =>
    obtain rfl := Nat.succ.inj heq
    rw [readItems_skip, h]
    rfl

theorem readValue_object {ms : List (String × Json)}
    (h : readMembers range fuel levels cs = some (ms, rest)) :
    readValue range (fuel + 1) (levels + 1) ('{' :: cs) = some (ofMembers ms, rest) := by
  have hgap : isGap '\x7b' = false := by decide
  simp only [readValue, skip_cons hgap]
  split
  · next heq => cases heq
  · next hskip => rw [readMembers_close hskip] at h; cases h
  · next heq _ =>
    obtain rfl := Nat.succ.inj heq
    rw [readMembers_skip, h]
    rfl

theorem readItems_one {v : Json} {tail : List Char}
    (hv : readValue range fuel levels cs = some (v, tail)) (ht : skip tail = ']' :: rest) :
    readItems range (fuel + 1) levels cs = some ([v], rest) := by
  rw [readItems, hv]
  simp only [ht]

theorem readItems_more {v : Json} {vs : List Json} {tail : List Char}
    (hv : readValue range fuel levels cs = some (v, ',' :: tail))
    (hvs : readItems range fuel levels tail = some (vs, rest)) :
    readItems range (fuel + 1) levels cs = some (v :: vs, rest) := by
  have hgap : isGap ',' = false := by decide
  rw [readItems, hv]
  simp only [skip_cons hgap, hvs, Option.map_some]

/-- A member of an object up to the end of its value. -/
def IsMember (range : Range) (fuel levels : Nat) (cs : List Char) (m : String × Json)
    (tail : List Char) : Prop :=
  ∃ cs₁ cs₂ cs₃, skip cs = '\x22' :: cs₁ ∧ readString [] cs₁ = some (m.1.toList, cs₂) ∧
    skip cs₂ = ':' :: cs₃ ∧ readValue range fuel levels cs₃ = some (m.2, tail)

theorem readMembers_one {m : String × Json} {tail : List Char}
    (hm : IsMember range fuel levels cs m tail) (ht : skip tail = '}' :: rest) :
    readMembers range (fuel + 1) levels cs = some ([m], rest) := by
  obtain ⟨cs₁, cs₂, cs₃, h₁, h₂, h₃, hv⟩ := hm
  rw [readMembers, h₁]
  simp only [h₂, h₃, hv, ht, String.ofList_toList]

theorem readMembers_more {m : String × Json} {ms : List (String × Json)} {tail : List Char}
    (hm : IsMember range fuel levels cs m (',' :: tail))
    (hms : readMembers range fuel levels tail = some (ms, rest)) :
    readMembers range (fuel + 1) levels cs = some (m :: ms, rest) := by
  obtain ⟨cs₁, cs₂, cs₃, h₁, h₂, h₃, hv⟩ := hm
  have hgap : isGap ',' = false := by decide
  rw [readMembers, h₁]
  simp only [h₂, h₃, hv, skip_cons hgap, hms, String.ofList_toList, Option.map_some]

end Brackets

theorem setMember_of_notMem {ms : List (String × Json)} {k : String} (hk : k ∉ ms.map (·.1))
    (v : Json) : setMember ms k v = ms ++ [(k, v)] := by
  induction ms with
  | nil => rfl
  | cons m ms ih =>
    rw [List.map_cons, List.mem_cons, not_or] at hk
    rw [setMember, if_neg (Ne.symm hk.1), ih hk.2, List.cons_append]

/-- Members with new and distinct keys are put after the others. -/
theorem foldl_setMember {done ms : List (String × Json)} (hd : ((done ++ ms).map (·.1)).Nodup) :
    ms.foldl (fun ms m => setMember ms m.1 m.2) done = done ++ ms := by
  induction ms generalizing done with
  | nil => simp
  | cons m ms ih =>
    have hm : m.1 ∉ done.map (·.1) := by
      rw [List.map_append, List.nodup_append] at hd
      intro hin
      exact hd.2.2 _ hin _ (List.mem_map_of_mem List.mem_cons_self) rfl
    rw [List.foldl_cons, setMember_of_notMem hm, ih (by simpa using hd), List.append_assoc]
    rfl

/-- Members with distinct keys are the members of their object. -/
theorem ofMembers_of_nodup {ms : List (String × Json)} (hd : (ms.map (·.1)).Nodup) :
    ofMembers ms = .object ms := by
  have hfold : ms.foldl (fun ms m => setMember ms m.1 m.2) [] = [] ++ ms :=
    foldl_setMember (by simpa using hd)
  rw [ofMembers, hfold, List.nil_append]

/-! ## Reading back -/

/-- The reader takes the text of a fractional number for that number. -/
def Faithful (x : Decimal.Binary) : Prop :=
  ∀ (fuel levels : Nat) (rest : List Char), EndsNumber rest →
    readValue .word (fuel + 1) levels (Decimal.Layout.snapshot.text x ++ rest) =
      some (.float x, rest)

mutual
/-- Whole numbers have at most 64 bits, the texts of fractional numbers are taken for these, and
objects have no key twice. -/
def Readable : Json → Prop
  | .int n => fitsWord n = true
  | .float x => Faithful x
  | .array vs => ReadableAll vs
  | .object ms => (ms.map (·.1)).Nodup ∧ ReadableMembers ms
  | _ => True

/-- `Readable` of every item. -/
def ReadableAll : List Json → Prop
  | [] => True
  | v :: vs => Readable v ∧ ReadableAll vs

/-- `Readable` of the value of every member. -/
def ReadableMembers : List (String × Json) → Prop
  | [] => True
  | (_, v) :: ms => Readable v ∧ ReadableMembers ms
end

/-- What follows an item or a member ends a number. -/
theorem endsNumber_of_skip {cs rest : List Char} {c : Char}
    (hc : c = ',' ∨ c = ']' ∨ c = '}') (h : skip cs = c :: rest) : EndsNumber cs := by
  cases cs with
  | nil => simp [EndsNumber]
  | cons d ds =>
    rintro _ ⟨⟩
    cases hd : isGap d with
    | true =>
      simp only [isGap, Bool.or_eq_true, decide_eq_true_eq] at hd
      rcases hd with ((rfl | rfl) | rfl) | rfl <;> decide
    | false =>
      rw [skip_cons hd] at h
      obtain ⟨rfl, -⟩ := List.cons.inj h
      rcases hc with rfl | rfl | rfl <;> decide

section Print

variable {l : Layout} {level : Nat}

theorem skip_newline_cons {c : Char} (hc : isGap c = false) (rest : List Char) :
    skip (l.newline level ++ c :: rest) = c :: rest := by
  rw [skip_newline, skip_cons hc]

/-- A printed member, as far as its value is read back. -/
theorem isMember_print {k : String} {v : Json} {fuel levels : Nat} {tail : List Char}
    (hv : readValue .word fuel levels (print l level v ++ tail) = some (v, tail)) :
    IsMember .word fuel levels
      (l.newline level ++ printString k ++ l.colon ++ print l level v ++ tail) (k, v) tail := by
  let value := print l level v ++ tail
  refine ⟨k.toList.flatMap printChar ++ '\x22' :: (l.colon ++ value), l.colon ++ value,
    l.colon.tail ++ value, ?_, readString_print _ _ _, ?_, ?_⟩
  · simp only [printString, List.append_assoc, List.cons_append, List.nil_append]
    exact skip_newline_cons (by decide) _
  · cases l <;> rfl
  · cases l with
    | compact => exact hv
    | indented =>
      have hblank : skip (' ' :: value) = skip value := rfl
      rw [← readValue_skip, ← readValue_skip] at hv ⊢
      exact hv

theorem print_array (v : Json) (vs : List Json) : print l level (.array (v :: vs)) =
    '[' :: (printItems l (level + 1) (v :: vs) ++ (l.newline level ++ [']'])) := by
  simp [print]

theorem print_object (m : String × Json) (ms : List (String × Json)) :
    print l level (.object (m :: ms)) =
      '\x7b' :: (printMembers l (level + 1) (m :: ms) ++ (l.newline level ++ ['}'])) := by
  simp [print]

theorem printItems_one (v : Json) :
    printItems l level [v] = l.newline level ++ print l level v := by simp [printItems]

theorem printItems_more (v w : Json) (vs : List Json) : printItems l level (v :: w :: vs) =
    l.newline level ++ (print l level v ++ ',' :: printItems l level (w :: vs)) := by
  rw [printItems]
  simp

theorem printMembers_one (m : String × Json) : printMembers l level [m] =
    l.newline level ++ printString m.1 ++ l.colon ++ print l level m.2 := by simp [printMembers]

theorem printMembers_more (m m' : String × Json) (ms : List (String × Json)) :
    printMembers l level (m :: m' :: ms) =
      l.newline level ++ printString m.1 ++ l.colon ++ print l level m.2 ++
        ',' :: printMembers l level (m' :: ms) := by
  rw [printMembers]
  simp

end Print

mutual

/-- A printed value is read back, whatever follows it. -/
theorem readValue_print (v : Json) (hv : v.Readable) {l : Layout} {level fuel levels : Nat}
    {rest : List Char} (hr : EndsNumber rest) (hf : (print l level v).length < fuel)
    (hh : v.height ≤ levels) :
    readValue .word fuel levels (print l level v ++ rest) = some (v, rest) := by
  match v, fuel, levels with
  | _, 0, _ => omega
  | .null, fuel + 1, _ => rfl
  | .bool true, fuel + 1, _ => rfl
  | .bool false, fuel + 1, _ => rfl
  | .int n, fuel + 1, levels => exact readValue_int hv fuel levels hr
  | .float x, fuel + 1, levels => exact hv fuel levels rest hr
  | .string s, fuel + 1, levels => exact readValue_string .word fuel levels s rest
  | .array [], fuel + 1, levels + 1 => rfl
  | .object [], fuel + 1, levels + 1 => rfl
  | .array (v :: vs), fuel + 1, levels + 1 =>
    simp only [print_array, List.length_cons, List.length_append] at hf
    rw [height] at hh
    rw [print_array, List.cons_append, List.append_assoc, List.append_assoc]
    refine readValue_array (readItems_print v vs hv ?_ (by omega) (by omega))
    exact skip_newline_cons (by decide) _
  | .object (m :: ms), fuel + 1, levels + 1 =>
    simp only [print_object, List.length_cons, List.length_append] at hf
    rw [height] at hh
    rw [print_object, List.cons_append, List.append_assoc, List.append_assoc,
      ← ofMembers_of_nodup hv.1]
    refine readValue_object (readMembers_print m ms hv.2 ?_ (by omega) (by omega))
    exact skip_newline_cons (by decide) _
  | .array vs, fuel + 1, 0 =>
    rw [height] at hh
    omega
  | .object ms, fuel + 1, 0 =>
    rw [height] at hh
    omega
termination_by fuel

/-- Printed items are read back up to the bracket after them. -/
theorem readItems_print (v : Json) (vs : List Json) (hv : ReadableAll (v :: vs)) {l : Layout}
    {level fuel levels : Nat} {tail rest : List Char} (ht : skip tail = ']' :: rest)
    (hf : (printItems l level (v :: vs)).length + 1 < fuel) (hh : heightAll (v :: vs) ≤ levels) :
    readItems .word fuel levels (printItems l level (v :: vs) ++ tail) = some (v :: vs, rest) := by
  match vs, fuel with
  | _, 0 => omega
  | [], fuel + 1 =>
    rw [printItems_one, List.length_append] at hf
    rw [heightAll] at hh
    have hend : EndsNumber tail := endsNumber_of_skip (.inr (.inl rfl)) ht
    rw [printItems_one, List.append_assoc]
    refine readItems_one ?_ ht
    rw [readValue_newline, readValue_print v hv.1 hend (by omega) (by omega)]
  | w :: vs, fuel + 1 =>
    simp only [printItems_more, List.length_append, List.length_cons] at hf
    rw [heightAll] at hh
    have hend : EndsNumber (',' :: (printItems l level (w :: vs) ++ tail)) :=
      endsNumber_of_skip (.inl rfl) (skip_cons (by decide) _)
    have hmore : readItems .word fuel levels (printItems l level (w :: vs) ++ tail) =
        some (w :: vs, rest) := readItems_print w vs hv.2 ht (by omega) (by omega)
    rw [printItems_more, List.append_assoc, List.append_assoc, List.cons_append]
    refine readItems_more ?_ hmore
    rw [readValue_newline, readValue_print v hv.1 hend (by omega) (by omega)]
termination_by fuel

/-- Printed members are read back up to the brace after them. -/
theorem readMembers_print (m : String × Json) (ms : List (String × Json))
    (hv : ReadableMembers (m :: ms)) {l : Layout} {level fuel levels : Nat} {tail rest : List Char}
    (ht : skip tail = '}' :: rest) (hf : (printMembers l level (m :: ms)).length + 1 < fuel)
    (hh : heightMembers (m :: ms) ≤ levels) :
    readMembers .word fuel levels (printMembers l level (m :: ms) ++ tail) =
      some (m :: ms, rest) := by
  match ms, fuel with
  | _, 0 => omega
  | [], fuel + 1 =>
    simp only [printMembers_one, List.length_append] at hf
    rw [heightMembers] at hh
    have hend : EndsNumber tail := endsNumber_of_skip (.inr (.inr rfl)) ht
    rw [printMembers_one]
    refine readMembers_one (isMember_print ?_) ht
    exact readValue_print m.2 hv.1 hend (by omega) (by omega)
  | m' :: ms, fuel + 1 =>
    simp only [printMembers_more, List.length_append, List.length_cons] at hf
    rw [heightMembers] at hh
    have hend : EndsNumber (',' :: (printMembers l level (m' :: ms) ++ tail)) :=
      endsNumber_of_skip (.inl rfl) (skip_cons (by decide) _)
    have hmore : readMembers .word fuel levels (printMembers l level (m' :: ms) ++ tail) =
        some (m' :: ms, rest) := readMembers_print m' ms hv.2 ht (by omega) (by omega)
    rw [printMembers_more, List.append_assoc, List.cons_append]
    refine readMembers_more (isMember_print ?_) hmore
    exact readValue_print m.2 hv.1 hend (by omega) (by omega)
termination_by fuel

end

/-! ## Stored values -/

theorem readableMembers_iff {ms : List (String × Json)} :
    ReadableMembers ms ↔ ∀ m ∈ ms, m.2.Readable := by
  induction ms with
  | nil => simp [ReadableMembers]
  | cons m ms ih => simp [ReadableMembers, ih]

mutual

/-- Putting members in order keeps a value readable. -/
theorem Readable.sorted (v : Json) (hv : v.Readable) : v.sorted.Readable := by
  match v with
  | .array vs => exact readableAll_sortedItems vs hv
  | .object ms =>
    have hperm := List.mergeSort_perm (sortedMembers ms) fun a b => decide (a.1 ≤ b.1)
    refine ⟨?_, ?_⟩
    · rw [(hperm.map Prod.fst).nodup_iff, sortedMembers_eq, List.map_map]
      exact hv.1
    · rw [readableMembers_iff]
      intro m hm
      exact readableMembers_iff.1 (readableMembers_sortedMembers ms hv.2) m (hperm.mem_iff.1 hm)
  | .null => trivial
  | .bool _ => trivial
  | .int _ => exact hv
  | .float _ => exact hv
  | .string _ => trivial

theorem readableAll_sortedItems (vs : List Json) (hv : ReadableAll vs) :
    ReadableAll (sortedItems vs) := by
  match vs with
  | [] => trivial
  | v :: vs => exact ⟨Readable.sorted v hv.1, readableAll_sortedItems vs hv.2⟩

theorem readableMembers_sortedMembers (ms : List (String × Json)) (hv : ReadableMembers ms) :
    ReadableMembers (sortedMembers ms) := by
  match ms with
  | [] => trivial
  | (_, v) :: ms => exact ⟨Readable.sorted v hv.1, readableMembers_sortedMembers ms hv.2⟩

end

/-- The text that a value is stored as is read as that value, up to the order of members. -/
def ReadsBack (l : Layout) (levels : Nat) (v : Json) : Prop :=
  ∀ text, v.store? l = some text → ∃ w, parse? .word levels text = some w ∧ w.Same v

/-- Stored values are read back. -/
theorem Readable.readsBack {v : Json} (hv : v.Readable) (l : Layout) {levels : Nat}
    (hl : maxStoredHeight ≤ levels) : v.ReadsBack l levels := by
  intro text ht
  unfold store? at ht
  split at ht
  · next hstorable =>
    obtain rfl := Option.some.inj ht
    have hheight : v.height ≤ maxStoredHeight := by
      simpa using (Bool.and_eq_true_iff.1 hstorable).1
    have hlevels : v.sorted.height ≤ levels := by
      rw [height_sorted]
      omega
    have hread : readValue .word ((print l 0 v.sorted).length + 1) levels
        (print l 0 v.sorted ++ []) = some (v.sorted, []) :=
      readValue_print v.sorted (Readable.sorted v hv) (by simp [EndsNumber]) (Nat.lt_succ_self _)
        hlevels
    refine ⟨v.sorted, ?_, sorted_sorted v⟩
    rw [List.append_nil] at hread
    rw [parse?, String.toList_ofList, String.length_ofList, hread]
    rfl
  · cases ht

end Concordance.Json
