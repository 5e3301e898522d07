import Concordance.Proofs.TypePhrase.Grammar
import Concordance.Proofs.TypePhrase.Reading

/-!
# What is read is in the grammar

Each reader is shown to take tokens that its production derives, given that the reader of
alternatives it is built from does; `sound_alt` is the induction over the levels that are left.
-/

namespace Concordance.TypePhrase

/-- A reader takes the tokens of an alternative under `k` primaries, and every suffix after it. -/
def SoundAt (k : Nat) (r : Reader) : Prop := ∀ ⦃ts t rest⦄, r ts = .ok (t, rest) →
  ∃ us, ts = us ++ rest ∧ IsAlternative k us t ∧ NoSuffix rest

/-! ## Choices -/

section Levels

variable {k : Nat} {r : Reader} (hr : SoundAt k r)
include hr

theorem readMore_sound {bound : Nat} {ts rest us : List Token} {t : TypePhrase}
    {more : List TypePhrase} (ht : IsAlternative k us t)
    (h : readMore r bound ts = .ok (more, rest)) :
    ∃ vs, ts = vs ++ rest ∧ IsChoice k (us ++ vs) (t :: more) := by
  induction bound generalizing ts t us more with
  | zero =>
    cases h
    exact ⟨[], rfl, by simpa using .one ht⟩
  | succ bound ih =>
    rcases readMore_succ_ok_iff.1 h with
      ⟨rfl, rfl, -⟩ | ⟨o, ts₁, a, ts₂, more', rfl, ho, ha, hm, rfl⟩
    · exact ⟨[], rfl, by simpa using .one ht⟩
    · obtain ⟨vs, rfl, ha, -⟩ := hr ha
      obtain ⟨ws, rfl, hc⟩ := ih ha hm
      exact ⟨o :: (vs ++ ws), by simp, .more ht ho hc⟩

theorem readUnion_sound {ts rest : List Token} {t : TypePhrase}
    (h : readUnion r ts = .ok (t, rest)) :
    ∃ us, ts = us ++ rest ∧ IsType rest.isEmpty k us t := by
  obtain ⟨a, ts₁, more, ha, hm, rfl⟩ := readUnion_ok_iff.1 h
  obtain ⟨us, hus, ha, -⟩ := hr ha
  obtain ⟨vs, rfl, hc⟩ := readMore_sound hr ha hm
  rcases dropEither_cases ts with ⟨e, ts', rfl, -, he, hd⟩ | ⟨hd, hsole⟩
  · refine ⟨e :: (us ++ vs), ?_, .either he hc⟩
    rw [← hd, hus]
    simp
  · rw [hd] at hus
    refine ⟨us ++ vs, by rw [hus, List.append_assoc], .plain hc ?_⟩
    intro e ws heq he
    have hnil := hsole e (ws ++ rest) (by rw [hus, ← List.append_assoc, heq]; rfl) he
    rw [List.append_eq_nil_iff] at hnil
    simp [hnil]

/-! ## Primaries -/

theorem readFields_sound {opening : Token} {bound : Nat} {seen : List String}
    {ts rest : List Token} {fields : List (String × TypePhrase)}
    (h : readFields r opening bound seen ts = .ok (fields, rest)) :
    ∃ us c, ts = us ++ c :: rest ∧ c.kind = .closeBrace ∧ IsFields k us fields ∧
      (fields.map (·.1)).Nodup ∧ ∀ n ∈ fields.map (·.1), n ∉ seen := by
  induction bound generalizing seen ts fields with
  | zero => cases h
  | succ bound ih =>
    obtain ⟨name, ts₁, ts₂, t, u, ts₃, hname, hcolon, ht, hnext⟩ := readFields_succ_ok_iff.1 h
    obtain ⟨n, rfl, hn, rfl, hseen⟩ := readFieldName_ok_iff.1 hname
    obtain ⟨c, rfl, hc⟩ := readColon_ok_iff.1 hcolon
    obtain ⟨us, rfl, htype⟩ := readUnion_sound hr ht
    rcases hnext with ⟨hu, fields', hf, rfl⟩ | ⟨hu, rfl, rfl⟩
    · obtain ⟨vs, d, rfl, hd, hfields, hnodup, hnew⟩ := ih hf
      refine ⟨n :: c :: (us ++ u :: vs), d, by simp, hd, .more hn hc htype hu hfields, ?_, ?_⟩
      · exact List.nodup_cons.2 ⟨fun hmem => hnew _ hmem List.mem_cons_self, hnodup⟩
      · intro m hm
        rcases List.mem_cons.1 hm with rfl | hm
        · exact hseen
        · exact fun hin => hnew m hm (List.mem_cons_of_mem _ hin)
    · exact ⟨n :: c :: us, u, by simp, hu, .one hn hc htype, by simp, by simpa using hseen⟩

end Levels

/-- A primary is read as far as its production goes; after a list phrase no suffix is left. -/
theorem readPrimary_sound {k : Nat} {r : Reader} (hr : SoundAt (k + 1) r) {ts rest : List Token}
    {t : TypePhrase} (h : readPrimary r ts = .ok (t, rest)) :
    ∃ us, ts = us ++ rest ∧ IsPrimary k us t ∧ (StartsListPhrase us → NoSuffix rest) := by
  cases ts with
  | nil => cases h
  | cons u ts =>
    have hno : u.kind ≠ .word → ∀ us, StartsListPhrase (u :: us) → NoSuffix rest :=
      fun hu us hl => absurd (startsListPhrase_cons hl) hu
    rw [readPrimary] at h
    split at h
    · next hu =>
      have hno := hno (by simp [hu])
      rcases readRecord_ok_iff.1 h with ⟨c, rfl, hc, rfl⟩ | ⟨-, fields, hf, rfl⟩
      · exact ⟨[u, c], rfl, .empty hu hc, hno _⟩
      · obtain ⟨us, d, rfl, hd, hfields, hnodup, -⟩ := readFields_sound hr hf
        exact ⟨u :: (us ++ [d]), by simp, .record hu hd hfields hnodup, hno _⟩
    · split at h
      · next hu =>
        obtain ⟨c, ht, hc⟩ := readParenthesized_ok_iff.1 h
        obtain ⟨us, rfl, htype⟩ := readUnion_sound hr ht
        exact ⟨u :: (us ++ [c]), by simp, .parenthesized hu hc htype, hno (by simp [hu]) _⟩
      · split at h
        · next hu =>
          split at h
          · next ts₁ hlist =>
            obtain ⟨⟨t₁, ts₂⟩, ht, heq⟩ := map_ok_iff.1 h
            cases heq
            obtain ⟨ws, hw, heq⟩ := afterListPhrase?_eq_some_iff.1 hlist
            obtain ⟨us, rfl, halt, hend⟩ := hr ht
            exact ⟨ws ++ us, by rw [heq, List.append_assoc], .list hw halt, fun _ => hend⟩
          · next hlist =>
            cases h
            have hsplit := List.takeWhile_append_dropWhile (p := isPhraseWord) (l := u :: ts)
            have hstart : ¬StartsListPhrase ((u :: ts).takeWhile isPhraseWord) := by
              rintro ⟨ws, us, hw, heq⟩
              refine afterListPhrase?_eq_none_iff.1 hlist
                ⟨ws, us ++ (u :: ts).dropWhile isPhraseWord, hw, ?_⟩
              rw [← List.append_assoc, ← heq, hsplit]
            refine ⟨_, hsplit.symm, .words ?_ ?_ hstart, fun hl => absurd hl hstart⟩
            · simp [hu]
            · exact fun w hw => List.all_eq_true.1 (List.all_takeWhile ..) w hw
        · cases h

/-! ## Alternatives and texts -/

theorem readSuffixes_sound {allowed : Nat} {ts rest : List Token} {t t' : TypePhrase}
    (h : readSuffixes allowed t ts = .ok (t', rest)) :
    ∃ ss, ts = ss ++ rest ∧ (∀ s ∈ ss, s.kind = .brackets) ∧ ss.length ≤ allowed ∧
      t' = suffixed ss.length t ∧ NoSuffix rest := by
  fun_induction readSuffixes allowed t ts with
  | case1 allowed t =>
    cases h
    exact ⟨[], rfl, by simp, by simp, rfl, by simp⟩
  | case2 t u ts hu => cases h
  | case3 t u ts hu allowed ih =>
    obtain ⟨ss, rfl, hs, hlen, rfl, hno⟩ := ih h
    exact ⟨u :: ss, rfl, by simpa [hu] using hs, by simpa using hlen, rfl, hno⟩
  | case4 allowed t u ts hu =>
    cases h
    exact ⟨[], rfl, by simp, by simp, rfl, by simpa using hu⟩

/-- With `n` levels left under `k` primaries an alternative is read as the grammar has it. -/
theorem sound_alt {n k : Nat} (hk : n + k = maxLevels) : SoundAt k (alt n) := by
  induction n generalizing k with
  | zero => intro ts t rest h; cases h
  | succ n ih =>
    intro ts t rest h
    obtain ⟨a, ts₁, ha, hsuffix⟩ := alt_succ_ok_iff.1 h
    obtain ⟨us, rfl, hprimary, hno⟩ := readPrimary_sound (ih (k := k + 1) (by omega)) ha
    obtain ⟨ss, rfl, hs, hlen, rfl, hend⟩ := readSuffixes_sound hsuffix
    refine ⟨us ++ ss, by rw [List.append_assoc], .mk hprimary hs (by omega) fun hne hl => ?_, hend⟩
    cases ss with
    | nil => exact hne rfl
    | cons s ss => exact noSuffix_cons.1 (hno hl) (hs s List.mem_cons_self)

theorem ofTokens_sound {n k : Nat} (hk : n + k = maxLevels) {ts : List Token} {t : TypePhrase}
    (h : ofTokens n ts = .ok t) : IsType true k ts t := by
  obtain ⟨us, rfl, htype⟩ := readUnion_sound (sound_alt hk) (ofTokens_ok_iff.1 h)
  simpa using htype

end Concordance.TypePhrase
