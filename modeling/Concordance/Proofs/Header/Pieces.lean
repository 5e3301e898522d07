import Concordance.Header.Parser
import Concordance.Proofs.Header.Split
import Concordance.Proofs.Text.Place
import Mathlib.Data.List.Forall2

/-!
# The pieces of a list

A parameter list is `Cut` at the boundaries that the splitter meets (`cut_chunks?`). Its pieces are
`Laid` out in the source: each stands at its offset, a comma follows each but the last, and the
parenthesis that closes the list follows that one. So the pieces come in order without meeting
(`Laid.pairwise`), and the list is closed after all of them (`Laid.mem`). Each piece closes what it
opens (`after_of_chunks?`), and writes one parameter or has one fault
(`sublistForall₂_readParameters`).
-/

namespace Concordance.Header

/-- Where a piece ends. -/
def Chunk.stop (c : Chunk) : Nat := c.offset + c.text.length

/-- Pieces that stand in a source one after the other from an offset on, up to the place where their
list is closed. -/
inductive Laid (source : List Char) (close : Nat) : (offset : Nat) → List Chunk → Prop
  | last {offset : Nat} {text : List Char} (h : Text.StandsAt source offset (text ++ [')']))
      (hclose : offset + text.length = close) : Laid source close offset [⟨text, offset⟩]
  | more {offset : Nat} {text : List Char} {chunks : List Chunk}
      (h : Text.StandsAt source offset (text ++ [',']))
      (hrest : Laid source close (offset + text.length + 1) chunks) :
      Laid source close offset (⟨text, offset⟩ :: chunks)

namespace Laid

variable {source : List Char} {close offset : Nat} {chunks : List Chunk}

theorem close_stands (h : Laid source close offset chunks) : source[close]? = some ')' := by
  induction h with
  | last hstands hclose =>
    rw [← hclose]
    exact (Text.standsAt_append_iff.1 hstands).2.getElem?
  | more _ _ ih => exact ih

theorem offset_le_close (h : Laid source close offset chunks) : offset ≤ close := by
  induction h with
  | last _ hclose => omega
  | more _ _ ih => omega

/-- Each piece stands at its offset, before the list is closed. -/
theorem mem (h : Laid source close offset chunks) : ∀ c ∈ chunks,
    offset ≤ c.offset ∧ Text.StandsAt source c.offset c.text ∧ c.stop ≤ close := by
  induction h with
  | last hstands hclose =>
    have hplace := (Text.standsAt_append_iff.1 hstands).1
    exact List.forall_mem_singleton.2 ⟨Nat.le_refl _, hplace, Nat.le_of_eq hclose⟩
  | more hstands hrest ih =>
    have hplace := (Text.standsAt_append_iff.1 hstands).1
    have hle := hrest.offset_le_close
    refine List.forall_mem_cons.2 ⟨⟨Nat.le_refl _, hplace, Nat.le_of_succ_le hle⟩, ?_⟩
    intro c hc
    obtain ⟨hoffset, hplace, hstop⟩ := ih c hc
    exact ⟨by omega, hplace, hstop⟩

/-- The pieces come in order, with something between them. -/
theorem pairwise (h : Laid source close offset chunks) :
    chunks.Pairwise fun c d => c.stop < d.offset := by
  induction h with
  | last => exact List.pairwise_singleton ..
  | more _ hrest ih =>
    exact List.pairwise_cons.2 ⟨fun d hd => (hrest.mem d hd).1, ih⟩

end Laid

/-! ## What the splitter gives -/

theorem tail_of_drop {source : List Char} {n : Nat} {c : Char} {cs : List Char}
    (h : source.drop n = c :: cs) : source.drop (n + 1) = cs := by
  rw [← List.drop_drop, h, List.drop_one, List.tail_cons]

/-- How a text that starts at an offset is cut. It is cut nowhere, and the list is not closed; or
the list is closed at the first boundary; or there is a comma at the first boundary, and the text
after it is cut in turn. -/
inductive Cut : (offset : Nat) → List Char → Option (List Chunk × Nat) → Prop
  | unclosed {offset : Nat} {w : List Char} (hw : Uncut [] w) : Cut offset w none
  | last {offset : Nat} {w rest : List Char} (hw : Uncut [] w) (hafter : after [] w = []) :
      Cut offset (w ++ ')' :: rest) (some ([⟨w, offset⟩], offset + w.length))
  | more {offset : Nat} {w rest : List Char} {r : Option (List Chunk × Nat)} (hw : Uncut [] w)
      (hafter : after [] w = []) (h : Cut (offset + w.length + 1) rest r) :
      Cut offset (w ++ ',' :: rest) (r.map fun p => (⟨w, offset⟩ :: p.1, p.2))

/-- The splitter cuts a text at each first boundary. -/
theorem cut_chunks? (offset : Nat) (cs : List Char) : Cut offset cs (chunks? offset cs) := by
  rcases uncut_or_exists_cut [] cs with hw | ⟨w, c, rest, rfl, hw, hafter, rfl | rfl⟩
  · have hnone : chunks? offset (cs ++ []) = none := by
      rw [chunks?, split_of_uncut hw]
      rfl
    rw [List.append_nil] at hnone
    rw [hnone]
    exact .unclosed hw
  · rw [chunks?, split_of_uncut hw, hafter, split_close]
    have hlast : Cut offset (w ++ ')' :: rest) (some ([⟨w, offset⟩], offset + w.length)) :=
      .last hw hafter
    simpa [Pieces.prepend] using hlast
  · have hmore : chunks? offset (w ++ ',' :: rest) =
        (chunks? (offset + w.length + 1) rest).map fun p => (⟨w, offset⟩ :: p.1, p.2) := by
      rw [chunks?, split_of_uncut hw, hafter, split_comma, chunks?]
      simp [Option.map_map, Function.comp_def, Pieces.prepend]
    rw [hmore]
    exact .more hw hafter (cut_chunks? _ rest)
termination_by cs.length

/-- The pieces of a list are laid out in its source, and close what they open. -/
theorem Cut.laid {source cs : List Char} {offset close : Nat} {chunks : List Chunk}
    {r : Option (List Chunk × Nat)} (h : Cut offset cs r) (hcs : source.drop offset = cs)
    (hr : r = some (chunks, close)) :
    Laid source close offset chunks ∧ ∀ chunk ∈ chunks, after [] chunk.text = [] := by
  induction h generalizing chunks with
  | unclosed => cases hr
  | @last offset w rest _ hafter =>
    cases hr
    have hstands : Text.StandsAt source offset (w ++ [')']) :=
      Text.standsAt_iff.2 ⟨rest, by rw [hcs]; simp⟩
    exact ⟨.last hstands rfl, List.forall_mem_singleton.2 hafter⟩
  | @more offset w rest r _ hafter _ ih =>
    obtain ⟨⟨chunks', close'⟩, rfl, heq⟩ := Option.map_eq_some_iff.1 hr
    cases heq
    have hstands : Text.StandsAt source offset (w ++ [',']) :=
      Text.standsAt_iff.2 ⟨rest, by rw [hcs]; simp⟩
    have hnext : source.drop (offset + w.length + 1) = rest := by
      rw [Nat.add_assoc, ← List.drop_drop, hcs]
      simp
    obtain ⟨hlaid, hchunks⟩ := ih hnext rfl
    exact ⟨.more hstands hlaid, List.forall_mem_cons.2 ⟨hafter, hchunks⟩⟩

section Chunks

variable {source : List Char} {offset close : Nat} {chunks : List Chunk}
  (h : chunks? offset (source.drop offset) = some (chunks, close))
include h

theorem laid_of_chunks? : Laid source close offset chunks :=
  ((cut_chunks? offset _).laid rfl h).1

theorem after_of_chunks? : ∀ chunk ∈ chunks, after [] chunk.text = [] :=
  ((cut_chunks? offset _).laid rfl h).2

end Chunks

/-! ## The pieces that are read -/

section Sublist

variable {α β : Type} {R : β → α → Prop} {as : List α} {bs : List β}

theorem exists_of_sublistForall₂ (h : List.SublistForall₂ R bs as) :
    ∀ b ∈ bs, ∃ a ∈ as, R b a := by
  induction h with
  | nil => simp
  | cons hr _ ih =>
    refine List.forall_mem_cons.2 ⟨⟨_, List.mem_cons_self, hr⟩, fun b hb => ?_⟩
    obtain ⟨a, ha, hba⟩ := ih b hb
    exact ⟨a, List.mem_cons_of_mem _ ha, hba⟩
  | cons_right _ ih =>
    intro b hb
    obtain ⟨a, ha, hba⟩ := ih b hb
    exact ⟨a, List.mem_cons_of_mem _ ha, hba⟩

theorem sublistForall₂_mono {S : β → α → Prop} {as' : List α} (h : List.SublistForall₂ R bs as)
    (hsub : as.Sublist as') (hRS : ∀ a ∈ as', ∀ b, R b a → S b a) :
    List.SublistForall₂ S bs as' := by
  obtain ⟨cs, hcs, hsublist⟩ := List.sublistForall₂_iff.1 h
  refine List.sublistForall₂_iff.2 ⟨cs, ?_, hsublist.trans hsub⟩
  have hmem : ∀ c ∈ cs, c ∈ as' := fun c hc => hsub.mem (hsublist.mem hc)
  exact (((List.forall₂_and_left cs bs).2 ⟨hmem, hcs.flip⟩).imp
    fun c b ⟨hc, hr⟩ => hRS c hc b hr).flip

/-- What comes from items in order is in order as the items are. -/
theorem pairwise_of_sublistForall₂ {S : α → α → Prop} {T : β → β → Prop}
    (hT : ∀ b b' a a', R b a → R b' a' → S a a' → T b b') (h : List.SublistForall₂ R bs as)
    (hs : as.Pairwise S) : bs.Pairwise T := by
  induction h with
  | nil => exact .nil
  | cons hr hrest ih =>
    obtain ⟨hfirst, hs⟩ := List.pairwise_cons.1 hs
    refine List.pairwise_cons.2 ⟨fun b' hb' => ?_, ih hs⟩
    obtain ⟨a', ha', hba'⟩ := exists_of_sublistForall₂ hrest b' hb'
    exact hT _ b' _ a' hr hba' (hfirst a' ha')
  | cons_right _ ih => exact ih (List.pairwise_cons.1 hs).2

end Sublist

theorem parameterChunks_sublist (chunks : List Chunk) :
    (parameterChunks chunks).Sublist chunks := by
  unfold parameterChunks
  dsimp only
  split
  · next only heq =>
    obtain rfl : chunks = [only] := by rw [← List.reverse_reverse chunks, heq]; rfl
    split
    · exact List.nil_sublist _
    · exact List.Sublist.refl _
  · next last previous rest heq =>
    split
    · rw [← List.reverse_reverse chunks, heq, List.reverse_sublist]
      exact List.sublist_cons_self ..
    · exact List.Sublist.refl _
  · exact List.nil_sublist _

/-- What is wrong with a piece: it is no parameter, or one with a name that was there before. -/
def Blames (fault : Fault) (chunk : Chunk) : Prop :=
  readParameter chunk = .error fault ∨
    ∃ p, readParameter chunk = .ok p ∧ fault = ⟨.repeatedParameter p.name, p.offset⟩

/-- Each piece writes one parameter or has one fault, both in the order of the pieces. -/
theorem sublistForall₂_readParameters (seen : List (List Char)) (chunks : List Chunk) :
    List.SublistForall₂ (fun p chunk => readParameter chunk = .ok p)
        (readParameters seen chunks).1 chunks ∧
      List.SublistForall₂ Blames (readParameters seen chunks).2 chunks ∧
      (readParameters seen chunks).1.length + (readParameters seen chunks).2.length =
        chunks.length := by
  induction chunks generalizing seen with
  | nil => exact ⟨.nil, .nil, rfl⟩
  | cons chunk chunks ih =>
    rw [readParameters_first]
    split
    · next fault hfault =>
      obtain ⟨hparams, hfaults, hlength⟩ := ih seen
      exact ⟨.cons_right hparams, .cons (.inl hfault) hfaults, by simp; omega⟩
    · next p hp =>
      split
      · obtain ⟨hparams, hfaults, hlength⟩ := ih seen
        exact ⟨.cons_right hparams, .cons (.inr ⟨p, hp, rfl⟩) hfaults, by simp; omega⟩
      · obtain ⟨hparams, hfaults, hlength⟩ := ih (p.name :: seen)
        exact ⟨.cons hp hparams, .cons_right hfaults, by simp; omega⟩

/-! ## Sources -/

/-- The place of the first opening parenthesis; the length of the source, if there is none. -/
def opening (source : List Char) : Nat := (source.takeWhile (· ≠ '(')).length

/-- The pieces of the parameter list of a source, and where the list is closed. -/
def list? (source : List Char) : Option (List Chunk × Nat) :=
  chunks? (opening source + 1) (source.drop (opening source + 1))

/-- The faults of the name of a source. -/
def nameFaultsOf (source : List Char) : List Fault :=
  nameFaults (Text.trim (source.takeWhile (· ≠ '('))) (Text.leading source) (opening source)

section Parse

variable {source : List Char}

/-- What stands from the first opening parenthesis on. -/
theorem drop_opening (source : List Char) : source.drop (opening source) = [] ∨
    ∃ list, source.drop (opening source) = '(' :: list := by
  have hdrop : source.drop (opening source) = source.dropWhile (· ≠ '(') :=
    Text.drop_takeWhile (· ≠ '(') source
  rw [hdrop]
  cases hrest : source.dropWhile (· ≠ '(') with
  | nil => exact .inl rfl
  | cons c list =>
    have hc := List.head?_dropWhile_not (· ≠ '(') source
    rw [hrest, List.head?_cons] at hc
    obtain rfl : c = '(' := by simpa using hc
    exact .inr ⟨list, rfl⟩

/-- What is read once the list is split. -/
theorem parse_of_list? {chunks : List Chunk} {close : Nat}
    (h : list? source = some (chunks, close)) : parse source =
      match readReturn (source.drop (close + 1)) (close + 1) with
      | .error fault => .error (nameFaultsOf source ++
          (readParameters [] (parameterChunks chunks)).2 ++ [fault])
      | .ok (returns, returnOffset) =>
        if nameFaultsOf source ++ (readParameters [] (parameterChunks chunks)).2 = [] then
          .ok ⟨Text.trim (source.takeWhile (· ≠ '(')),
            (readParameters [] (parameterChunks chunks)).1, returns, returnOffset⟩
        else .error (nameFaultsOf source ++ (readParameters [] (parameterChunks chunks)).2) := by
  unfold list? opening at h
  unfold parse
  dsimp only
  split
  · next hnil =>
    rw [← List.drop_drop, hnil] at h
    cases h
  · next hcons =>
    rw [tail_of_drop hcons] at h
    rw [h]
    rfl

/-- A list that is not closed is a fault, and so is a missing one. -/
theorem parse_of_list?_none (h : list? source = none) :
    source.drop (opening source) = [] ∧
        parse source = .error [⟨.noParameterList, (Text.trimRight source).length⟩] ∨
      (∃ list, source.drop (opening source) = '(' :: list) ∧
        parse source = .error (nameFaultsOf source ++ [⟨.unclosedList, opening source⟩]) := by
  unfold list? at h
  unfold parse
  rcases drop_opening source with hnil | ⟨list, hlist⟩
  · refine .inl ⟨hnil, ?_⟩
    rw [opening] at hnil
    simp only [hnil]
  · rw [tail_of_drop hlist] at h
    refine .inr ⟨⟨list, hlist⟩, ?_⟩
    rw [opening] at h hlist
    simp only [hlist, h]
    rfl

end Parse

end Concordance.Header
