import Concordance.Proofs.Header.Spelling
import Concordance.Proofs.Header.Total

/-!
# Where the parts of a header stand

The reader gives an offset with each text that it takes out of a header and with each fault that it
finds. When a header is read, every name and every type stands in the source at its offset, without
blanks at its ends; the parameters come in order inside the parentheses of the list, and the type of
the result comes after them. When it is refused, every fault lies in the source, the faults come in
order, and no piece of the list has two.

The main statement is `parse_places`.
-/

namespace Concordance.Header

open Text (StandsAt)

/-! ## Parameters -/

/-- A text that stands in a source, with no blanks at its ends. -/
structure Trimmed (source : List Char) (offset : Nat) (text : List Char) : Prop where
  stands : StandsAt source offset text
  ne_nil : text ≠ []
  trim : Text.trim text = text

/-- Where what is written of a parameter ends, with its type or with its name. -/
def RawParameter.stop (p : RawParameter) : Nat :=
  match p.type with
  | none => p.offset + p.name.length
  | some type => p.typeOffset + type.length

/-- The name and the type of a parameter stand in a source at their offsets, the name first. -/
structure RawParameter.Stands (source : List Char) (p : RawParameter) : Prop where
  name : StandsAt source p.offset p.name
  type : ∀ type ∈ p.type, Trimmed source p.typeOffset type ∧
    p.offset + p.name.length < p.typeOffset

theorem trimmed_trim {cs : List Char} (h : Text.allBlank cs = false) :
    Trimmed cs (Text.leading cs) (Text.trim cs) := by
  have hne : Text.trim cs ≠ [] := Text.trim_ne_nil h
  exact ⟨Text.standsAt_trim cs, hne, Text.trim_eq (Text.starts_trim hne) (Text.ends_trim hne)⟩

theorem Trimmed.trans {source u w : List Char} {m n : Nat} (hu : StandsAt source m u)
    (hw : Trimmed u n w) : Trimmed source (m + n) w :=
  ⟨hu.trans hw.stands, hw.ne_nil, hw.trim⟩

theorem RawParameter.Stands.offset_le_stop {source : List Char} {p : RawParameter}
    (h : p.Stands source) : p.offset ≤ p.stop := by
  rw [RawParameter.stop]
  cases htype : p.type with
  | none => exact Nat.le_add_right _ _
  | some type =>
    have hlt := (h.type type htype).2
    dsimp only
    omega

namespace Spelling

variable (d : Spelling)

theorem chars_eq_before : d.chars = d.before ++ (d.name ++ (wrapChars d.wrapped ++
    (markChars d.mark ++ (d.gap ++ typeChars d.type)))) := by
  simp [chars, body, run, before]

theorem length_head : d.before.length + d.name.length ≤ d.head.length := by
  simp only [before, head, run, List.length_append]
  omega

end Spelling

section Piece

variable {source : List Char} {chunk : Chunk} (hchunk : StandsAt source chunk.offset chunk.text)
include hchunk

/-- The parameter of a piece stands in the source, inside the piece. -/
theorem stands_of_readParameter {p : RawParameter} (h : readParameter chunk = .ok p) :
    p.Stands source ∧ chunk.offset ≤ p.offset ∧ p.stop ≤ chunk.stop := by
  obtain ⟨d, hd, hread⟩ := readParameter_ok h
  have hname : StandsAt source (chunk.offset + d.before.length) d.name := by
    rw [← hd, d.chars_eq_before] at hchunk
    exact hchunk.trans (Text.standsAt_append ..)
  have hlength : d.head.length + (Spelling.typeChars d.type).length = chunk.text.length := by
    rw [← hd, d.chars_eq, List.length_append]
  have hhead := d.length_head
  rw [Spelling.reading] at hread
  split at hread
  · cases hread
    refine ⟨⟨hname, by simp⟩, Nat.le_add_right _ _, ?_⟩
    simp only [RawParameter.stop, Chunk.stop]
    omega
  · next r hr =>
    dsimp only at hread
    split at hread
    · cases hread
    · next hblank =>
      cases hread
      have hsplit : (d.head ++ [':']) ++ (r ++ []) = chunk.text := by
        rw [← hd, d.chars_eq, hr, List.append_nil, List.append_assoc]
        rfl
      have hplace : StandsAt chunk.text (d.head.length + 1) r := by
        have hr := Text.standsAt_append (d.head ++ [':']) r []
        rwa [hsplit, List.length_append] at hr
      have htype := (trimmed_trim (eq_false_of_ne_true hblank)).trans (hchunk.trans hplace)
      have htrim := Text.leading_add_length_trim_le r
      rw [hr, Spelling.typeChars, List.length_cons] at hlength
      have hbefore : chunk.offset + d.before.length + d.name.length <
          chunk.offset + d.head.length + 1 + Text.leading r := by omega
      refine ⟨⟨hname, ?_⟩, Nat.le_add_right _ _, ?_⟩
      · rintro _ ⟨⟩
        exact ⟨htype, hbefore⟩
      · simp only [RawParameter.stop, Chunk.stop]
        omega

/-- The fault of a piece lies in it. -/
theorem offset_of_blames {fault : Fault} (h : Blames fault chunk) :
    chunk.offset ≤ fault.offset ∧ fault.offset ≤ chunk.stop := by
  rcases h with h | ⟨p, hp, rfl⟩
  · rcases exists_spelling_or chunk with ⟨d, hd⟩ | hrefused
    · -- the only fault of a spelled parameter is that nothing follows its colon
      rw [readParameter_of_chars hd, Spelling.reading] at h
      split at h
      · cases h
      · next r hr =>
        dsimp only at h
        split at h
        · cases h
          have hlength : d.head.length + (r.length + 1) = chunk.text.length := by
            rw [← hd, d.chars_eq, hr, List.length_append]
            rfl
          exact ⟨by dsimp only; omega, by simp only [Chunk.stop]; omega⟩
        · cases h
    · rw [hrefused] at h
      cases h
      have hle := Text.leading_add_length_trimLeft chunk.text
      exact ⟨Nat.le_add_right _ _, by simp only [Chunk.stop]; omega⟩
  · obtain ⟨hstands, hle, hstop⟩ := stands_of_readParameter hchunk hp
    exact ⟨hle, hstands.offset_le_stop.trans hstop⟩

end Piece

/-! ## The type of the result -/

section Return

variable {source : List Char} {offset : Nat}

/-- The type of the result stands after the list. -/
theorem trimmed_of_readReturn {returns : Option (List Char)} {place : Nat}
    (h : readReturn (source.drop offset) offset = .ok (returns, place)) :
    ∀ t ∈ returns, Trimmed source place t ∧ offset < place := by
  rw [readReturn] at h
  split at h
  · cases h
    simp
  · next rest hrest =>
    split at h
    · cases h
    · next hblank =>
      cases h
      have hcolon : StandsAt (source.drop offset) (Text.leading (source.drop offset) + 1) rest := by
        have hdrop := Text.standsAt_drop (source.drop offset) (Text.leading (source.drop offset))
        rw [Text.drop_leading, hrest] at hdrop
        exact (Text.standsAt_append_iff (u := [':']).1 hdrop).2
      have hplace := (Text.standsAt_drop source offset).trans hcolon
      rintro _ ⟨⟩
      exact ⟨(trimmed_trim (eq_false_of_ne_true hblank)).trans hplace, by omega⟩
  · cases h

theorem offset_of_readReturn {fault : Fault} (hoffset : offset ≤ source.length)
    (h : readReturn (source.drop offset) offset = .error fault) :
    offset ≤ fault.offset ∧ fault.offset ≤ source.length := by
  have hle := Text.leading_add_length_trimLeft (source.drop offset)
  rw [List.length_drop] at hle
  rw [readReturn] at h
  split at h
  · cases h
  · split at h
    · cases h
      exact ⟨Nat.le_add_right _ _, by dsimp only; omega⟩
    · cases h
  · cases h
    exact ⟨Nat.le_add_right _ _, by dsimp only; omega⟩

end Return

/-! ## Headers -/

/-- The parts of a header stand in its source where it says: its name before the list, its
parameters inside the list in order, and the type of its result after the list. -/
structure Placed (source : List Char) (h : Header) (close : Nat) : Prop where
  name : h.name = Text.trim (source.takeWhile (· ≠ '('))
  opened : source[opening source]? = some '('
  closed : source[close]? = some ')'
  params : ∀ p ∈ h.params, p.Stands source ∧ opening source < p.offset ∧ p.stop ≤ close
  ordered : h.params.Pairwise fun p q => p.stop < q.offset
  distinct : (h.params.map RawParameter.name).Nodup
  returns : ∀ t ∈ h.returns, Trimmed source h.returnOffset t ∧ close < h.returnOffset

/-- The faults of a source that is refused lie in it in order. Those of a list that is closed stand
between those before and after the list; each lies in the piece that has it, and no piece has
two. -/
structure FaultsPlaced (source : List Char) (faults : List Fault) : Prop where
  inside : ∀ f ∈ faults, f.offset ≤ source.length
  ordered : faults.Pairwise fun f g => f.offset ≤ g.offset
  pieces : ∀ chunks close, list? source = some (chunks, close) →
    Laid source close (opening source + 1) chunks ∧
      ∃ (front : Option Fault) (inner : List Fault) (back : Option Fault),
        faults = front.toList ++ (inner ++ back.toList) ∧
        (∀ f ∈ front, f.offset ≤ opening source) ∧
        List.SublistForall₂ (fun f c => Blames f c ∧ c.offset ≤ f.offset ∧ f.offset ≤ c.stop)
          inner chunks ∧
        ∀ f ∈ back, close < f.offset

section List

variable {source : List Char}

theorem getElem?_opening {list : List Char} (h : source.drop (opening source) = '(' :: list) :
    source[opening source]? = some '(' := by
  have hstands : StandsAt source (opening source) ['('] :=
    Text.standsAt_iff.2 ⟨list, h.symm⟩
  exact hstands.getElem?

/-- The name has at most one fault, which stands before the list. -/
theorem exists_nameFault {list : List Char} (h : source.drop (opening source) = '(' :: list) :
    ∃ front : Option Fault, nameFaultsOf source = front.toList ∧
      ∀ f ∈ front, f.offset ≤ opening source := by
  have hlead := Text.leading_le h (by decide)
  rw [nameFaultsOf, nameFaults]
  split
  · exact ⟨some _, rfl, by simp⟩
  · split
    · exact ⟨some _, rfl, by simpa using hlead⟩
    · exact ⟨none, rfl, by simp⟩

theorem pairwise_toList (o : Option Fault) :
    o.toList.Pairwise fun f g => f.offset ≤ g.offset := by
  cases o <;> simp

variable {chunks : List Chunk} {close : Nat} (hlist : list? source = some (chunks, close))
include hlist

theorem opening_of_list? : ∃ list, source.drop (opening source) = '(' :: list := by
  rcases drop_opening source with hnil | hcons
  · rw [list?, ← List.drop_drop, hnil] at hlist
    cases hlist
  · exact hcons

theorem laid_of_list? : Laid source close (opening source + 1) chunks := laid_of_chunks? hlist

/-- The parameters stand in pieces of the list. -/
theorem sublistForall₂_params :
    List.SublistForall₂ (fun p c => p.Stands source ∧ c.offset ≤ p.offset ∧ p.stop ≤ c.stop)
      (readParameters [] (parameterChunks chunks)).1 chunks :=
  sublistForall₂_mono (sublistForall₂_readParameters [] _).1 (parameterChunks_sublist chunks)
    fun c hc _ hread => stands_of_readParameter ((laid_of_list? hlist).mem c hc).2.1 hread

/-- The faults of the pieces stand in them. -/
theorem sublistForall₂_faults :
    List.SublistForall₂ (fun f c => Blames f c ∧ c.offset ≤ f.offset ∧ f.offset ≤ c.stop)
      (readParameters [] (parameterChunks chunks)).2 chunks :=
  sublistForall₂_mono (sublistForall₂_readParameters [] _).2.1 (parameterChunks_sublist chunks)
    fun c hc _ hblames =>
      ⟨hblames, offset_of_blames ((laid_of_list? hlist).mem c hc).2.1 hblames⟩

theorem close_lt_length : close < source.length :=
  (List.getElem?_eq_some_iff.1 (laid_of_list? hlist).close_stands).1

/-- The faults of a source whose list is closed, where at most one stands after the list. -/
theorem faultsPlaced_of_list? (back : Option Fault)
    (hback : ∀ f ∈ back, close < f.offset ∧ f.offset ≤ source.length) :
    FaultsPlaced source (nameFaultsOf source ++
      ((readParameters [] (parameterChunks chunks)).2 ++ back.toList)) := by
  obtain ⟨list, hopen⟩ := opening_of_list? hlist
  obtain ⟨front, hname, hfront⟩ := exists_nameFault hopen
  have hlaid := laid_of_list? hlist
  have hpieces := sublistForall₂_faults hlist
  have hinner : ∀ f ∈ (readParameters [] (parameterChunks chunks)).2,
      opening source < f.offset ∧ f.offset ≤ close := by
    intro f hf
    obtain ⟨c, hc, -, hle, hstop⟩ := exists_of_sublistForall₂ hpieces f hf
    obtain ⟨hoffset, -, hclose⟩ := hlaid.mem c hc
    exact ⟨hoffset.trans hle, hstop.trans hclose⟩
  have hopening := hlaid.offset_le_close
  have hlength := close_lt_length hlist
  rw [hname]
  refine ⟨?_, ?_, fun chunks' close' hlist' => ?_⟩
  · simp only [List.forall_mem_append, Option.mem_toList]
    refine ⟨fun f hf => ?_, fun f hf => ?_, fun f hf => (hback f hf).2⟩
    · have hle := hfront f hf
      omega
    · exact (hinner f hf).2.trans hlength.le
  · simp only [List.pairwise_append, List.forall_mem_append, Option.mem_toList]
    refine ⟨pairwise_toList front, ⟨?_, pairwise_toList back, ?_⟩, fun f hf => ⟨?_, ?_⟩⟩
    · refine pairwise_of_sublistForall₂ (fun f g c d hf hg hcd => ?_) hpieces hlaid.pairwise
      exact hf.2.2.trans (hcd.le.trans hg.2.1)
    · exact fun f hf g hg => (hinner f hf).2.trans (hback g hg).1.le
    · exact fun g hg => (hfront f hf).trans (hinner g hg).1.le
    · intro g hg
      have hle := hfront f hf
      have hlt := (hback g hg).1
      omega
  · obtain ⟨rfl, rfl⟩ := Prod.mk.inj (Option.some.inj (hlist.symm.trans hlist'))
    exact ⟨hlaid, front, _, back, rfl, hfront, hpieces, fun f hf => (hback f hf).1⟩

end List

/-- The one fault of a source without a list that is closed stands at its end or at the parenthesis
that opens the list, where the name may have one before it. -/
theorem faultsPlaced_of_list?_none {source : List Char} {faults : List Fault}
    (hlist : list? source = none) (h : parse source = .error faults) :
    FaultsPlaced source faults := by
  have hpieces : ∀ chunks close, list? source ≠ some (chunks, close) := by simp [hlist]
  rcases parse_of_list?_none hlist with ⟨-, hparse⟩ | ⟨⟨list, hopen⟩, hparse⟩
  · obtain rfl := Except.error.inj (hparse.symm.trans h)
    refine ⟨?_, List.pairwise_singleton .., fun c p hsome => absurd hsome (hpieces c p)⟩
    exact List.forall_mem_singleton.2 (Text.length_trimRight_le source)
  · obtain rfl := Except.error.inj (hparse.symm.trans h)
    obtain ⟨front, hname, hfront⟩ := exists_nameFault hopen
    have hlength := (List.getElem?_eq_some_iff.1 (getElem?_opening hopen)).1
    rw [hname]
    refine ⟨?_, ?_, fun c p hsome => absurd hsome (hpieces c p)⟩
    · simp only [List.forall_mem_append, Option.mem_toList, List.forall_mem_singleton]
      exact ⟨fun f hf => (hfront f hf).trans hlength.le, hlength.le⟩
    · simp only [List.pairwise_append, Option.mem_toList, List.forall_mem_singleton]
      exact ⟨pairwise_toList front, List.pairwise_singleton .., hfront⟩

/-- The parts of a header that was read stand in its source. -/
theorem placed_of_parse {source : List Char} {h : Header} (hparse : parse source = .ok h) :
    ∃ chunks close, list? source = some (chunks, close) ∧ h.Placed source close := by
  obtain ⟨hname, -, chunks, close, hlist, hreturn, -, hparams⟩ := parse_ok hparse
  obtain ⟨list, hopen⟩ := opening_of_list? hlist
  have hlaid := laid_of_list? hlist
  have hpieces := sublistForall₂_params hlist
  rw [← hparams] at hpieces
  refine ⟨chunks, close, hlist, hname, getElem?_opening hopen, hlaid.close_stands,
    fun p hp => ?_, ?_, ?_, fun t ht => ?_⟩
  · obtain ⟨c, hc, hstands, hle, hstop⟩ := exists_of_sublistForall₂ hpieces p hp
    obtain ⟨hoffset, -, hclose⟩ := hlaid.mem c hc
    exact ⟨hstands, hoffset.trans hle, hstop.trans hclose⟩
  · refine pairwise_of_sublistForall₂ (fun p q c d hp hq hcd => ?_) hpieces hlaid.pairwise
    exact hp.2.2.trans_lt (hcd.trans_le hq.2.1)
  · rw [hparams]
    exact (nodup_readParameters [] _).1
  · obtain ⟨htrimmed, hlt⟩ := trimmed_of_readReturn hreturn t ht
    exact ⟨htrimmed, Nat.lt_of_succ_lt hlt⟩

/-- **Names, types and faults stand where they are said to.** -/
theorem parse_places (source : List Char) :
    (∀ h, parse source = .ok h →
      ∃ chunks close, list? source = some (chunks, close) ∧ h.Placed source close) ∧
    ∀ faults, parse source = .error faults → FaultsPlaced source faults := by
  refine ⟨fun h => placed_of_parse, fun faults h => ?_⟩
  cases hlist : list? source with
  | none => exact faultsPlaced_of_list?_none hlist h
  | some r =>
    obtain ⟨chunks, close⟩ := r
    rw [parse_of_list? hlist] at h
    split at h
    · next fault hfault =>
      obtain rfl := Except.error.inj h
      rw [List.append_assoc]
      refine faultsPlaced_of_list? hlist (some fault) ?_
      rintro _ ⟨⟩
      exact offset_of_readReturn (close_lt_length hlist) hfault
    · split at h
      · cases h
      · obtain rfl := Except.error.inj h
        rw [← List.append_nil (readParameters [] _).2]
        exact faultsPlaced_of_list? hlist none (by simp)

/-- A header over several lines, with blanks around its parts, a name in underscores and a comma
after the last parameter. -/
def overLines : List Char :=
  "\n  Array.from(\n  _items_ : a List of A ,\n  optional f? ,\n): \n A[] ".toList

def overLinesHeader : Header :=
  ⟨"Array.from".toList,
    [⟨"items".toList, false, some "a List of A".toList, 27, 18⟩,
      ⟨"f".toList, true, none, 40, 52⟩],
    some "A[]".toList, 62⟩

/-- A header with a fault in its name, three in its list and one after it. -/
def faulty : List Char := "F\x7d(a: , b, b c, b, d): ".toList

def faultyFaults : List Fault :=
  [⟨.malformedName "F\x7d".toList, 0⟩, ⟨.noParameterType, 5⟩, ⟨.malformedParameter "b c".toList, 11⟩,
    ⟨.repeatedParameter ['b'], 16⟩, ⟨.noReturnType, 21⟩]

theorem parse_places_overLines :
    (parse overLines = .ok overLinesHeader ∧
      ∃ chunks close, list? overLines = some (chunks, close) ∧
        overLinesHeader.Placed overLines close) ∧
    parse faulty = .error faultyFaults ∧ FaultsPlaced faulty faultyFaults := by
  have hheader : parse overLines = .ok overLinesHeader := by decide +kernel
  have hfaults : parse faulty = .error faultyFaults := by decide +kernel
  exact ⟨⟨hheader, (parse_places overLines).1 _ hheader⟩,
    hfaults, (parse_places faulty).2 _ hfaults⟩

end Concordance.Header
