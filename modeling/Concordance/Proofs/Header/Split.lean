import Concordance.Header.Split

/-!
# What the splitter passes over

The brackets that are open `after` a text decide how the splitter goes on. A text is `Uncut` if the
splitter meets no boundary in it; then the text is put whole before what the splitter finds next
(`split_of_uncut`). It `Passes` if moreover the same brackets are open after it as before. Such are
texts without brackets, commas apart where no bracket is open, and a bracket with what it closes
around a text that passes inside it. A list of texts that pass with commas between them is split
into these texts (`split_intercalate`).
-/

namespace Concordance.Header

/-- The same pieces with a text at the start of the first. -/
def Pieces.prepend (w : List Char) (p : Pieces) : Pieces := { p with rest := w ++ p.rest }

@[simp] theorem Pieces.prepend_nil (p : Pieces) : p.prepend [] = p := rfl

@[simp] theorem Pieces.prepend_prepend (w v : List Char) (p : Pieces) :
    (p.prepend v).prepend w = p.prepend (w ++ v) := by
  simp [Pieces.prepend]

/-- A character that is no bracket. -/
def IsInert (c : Char) : Prop := closer? c = none ∧ isCloser c = false

instance (c : Char) : Decidable (IsInert c) := inferInstanceAs (Decidable (_ ∧ _))

/-- A class of characters without the brackets has only characters that are no brackets. -/
theorem isInert_of_class {p : Char → Bool}
    (hp : ['(', ')', '\x7b', '}', '[', ']'].all (!p ·) = true) {c : Char} (h : p c = true) :
    IsInert c := by
  have hne : ∀ d ∈ ['(', ')', '\x7b', '}', '[', ']'], c ≠ d := by
    rintro d hd rfl
    have hnot := List.all_eq_true.1 hp c hd
    simp [h] at hnot
  simp only [List.forall_mem_cons] at hne
  simp [IsInert, closer?, isCloser, hne]

/-! ## Open brackets -/

/-- The closing brackets that are waited for after a character. -/
def stackAfter (stack : List Char) (c : Char) : List Char :=
  match closer? c with
  | some k => k :: stack
  | none => if isCloser c = true ∧ stack.head? = some c then stack.tail else stack

/-- The closing brackets that are waited for after a text. -/
def after (stack w : List Char) : List Char := w.foldl stackAfter stack

section After

variable {stack w v : List Char} {c : Char}

theorem after_append : after stack (w ++ v) = after (after stack w) v := List.foldl_append

theorem stackAfter_of_isInert (h : IsInert c) : stackAfter stack c = stack := by
  simp [stackAfter, h.1, h.2]

theorem after_cons_of_isInert (h : IsInert c) (w : List Char) :
    after stack (c :: w) = after stack w := by
  rw [after, List.foldl_cons, stackAfter_of_isInert h, ← after]

theorem after_of_forall (h : ∀ c ∈ w, IsInert c) : after stack w = stack := by
  induction w with
  | nil => rfl
  | cons c w ih =>
    obtain ⟨hc, hw⟩ := List.forall_mem_cons.1 h
    rw [after_cons_of_isInert hc, ih hw]

/-- The splitter does nothing but keep the stack, unless it is at a comma or a closing parenthesis
where no bracket is open. -/
theorem split_cons (h : stack = [] → c ≠ ')' ∧ c ≠ ',') (offset : Nat) (cs : List Char) :
    split stack offset (c :: cs) =
      (split (stackAfter stack c) (offset + 1) cs).map (·.cons c) := by
  rw [split, stackAfter]
  cases closer? c with
  | some k => rfl
  | none => grind

/-- Nothing in the text ends a piece: no comma and no closing parenthesis is met where no bracket is
open. -/
def Uncut : (stack : List Char) → List Char → Prop
  | _, [] => True
  | stack, c :: cs => (stack = [] → c ≠ ')' ∧ c ≠ ',') ∧ Uncut (stackAfter stack c) cs

theorem uncut_append : Uncut stack (w ++ v) ↔ Uncut stack w ∧ Uncut (after stack w) v := by
  induction w generalizing stack with
  | nil => simp [Uncut, after]
  | cons c w ih => rw [List.cons_append, Uncut, Uncut, ih, and_assoc]; rfl

theorem uncut_of_forall (h : ∀ c ∈ w, c ≠ ')' ∧ c ≠ ',') : Uncut stack w := by
  induction w generalizing stack with
  | nil => trivial
  | cons c w ih =>
    obtain ⟨hc, hw⟩ := List.forall_mem_cons.1 h
    exact ⟨fun _ => hc, ih hw⟩

/-- A text without brackets is not cut, commas where no bracket is open apart. -/
theorem uncut_of_isInert (hw : ∀ c ∈ w, IsInert c ∧ (c = ',' → stack ≠ [])) : Uncut stack w := by
  induction w with
  | nil => trivial
  | cons c w ih =>
    obtain ⟨⟨hc, hcomma⟩, hw⟩ := List.forall_mem_cons.1 hw
    refine ⟨fun hnil => ⟨?_, fun heq => hcomma heq hnil⟩, ?_⟩
    · rintro rfl
      exact absurd hc (by decide)
    · rw [stackAfter_of_isInert hc]
      exact ih hw

/-- A text that is not cut is put whole before what the splitter finds next. -/
theorem split_of_uncut (h : Uncut stack w) (offset : Nat) (rest : List Char) :
    split stack offset (w ++ rest) =
      (split (after stack w) (offset + w.length) rest).map (·.prepend w) := by
  induction w generalizing stack offset with
  | nil => simp [after]
  | cons c w ih =>
    obtain ⟨hc, hw⟩ := h
    have hlength : offset + 1 + w.length = offset + (c :: w).length := by
      rw [List.length_cons]
      omega
    rw [List.cons_append, split_cons hc, ih hw, hlength, Option.map_map]
    rfl

/-- A text is not cut, or it has a first boundary. -/
theorem uncut_or_exists_cut (stack cs : List Char) : Uncut stack cs ∨
    ∃ w c rest, cs = w ++ c :: rest ∧ Uncut stack w ∧ after stack w = [] ∧
      (c = ')' ∨ c = ',') := by
  induction cs generalizing stack with
  | nil => exact .inl trivial
  | cons c cs ih =>
    by_cases hcut : stack = [] ∧ (c = ')' ∨ c = ',')
    · exact .inr ⟨[], c, cs, rfl, trivial, hcut.1, hcut.2⟩
    · have hc : stack = [] → c ≠ ')' ∧ c ≠ ',' :=
        fun hnil => not_or.1 fun hchar => hcut ⟨hnil, hchar⟩
      rcases ih (stackAfter stack c) with h | ⟨w, d, rest, rfl, hw, hafter, hd⟩
      · exact .inl ⟨hc, h⟩
      · exact .inr ⟨c :: w, d, rest, rfl, ⟨hc, hw⟩, hafter, hd⟩

end After

/-! ## Texts that pass -/

/-- A text that the splitter reads without a cut, the same brackets being open after it. -/
def Passes (stack w : List Char) : Prop :=
  ∀ offset rest, split stack offset (w ++ rest) =
    (split stack (offset + w.length) rest).map (·.prepend w)

theorem passes_nil (stack : List Char) : Passes stack [] := by
  intro offset rest
  simp

section Passes

variable {stack w : List Char}

theorem Passes.append {u v : List Char} (hu : Passes stack u) (hv : Passes stack v) :
    Passes stack (u ++ v) := by
  intro offset rest
  rw [List.append_assoc, hu, hv, Option.map_map, List.length_append, Nat.add_assoc]
  simp [Function.comp_def]

/-- A text that is not cut passes if it closes what it opens. -/
theorem passes_of_uncut (h : Uncut stack w) (hafter : after stack w = stack) : Passes stack w := by
  intro offset rest
  rw [split_of_uncut h, hafter]

theorem passes_of_forall (hw : ∀ c ∈ w, IsInert c) (hcomma : ',' ∉ w ∨ stack ≠ []) :
    Passes stack w := by
  refine passes_of_uncut (uncut_of_isInert fun c hc => ⟨hw c hc, ?_⟩) (after_of_forall hw)
  rintro rfl
  exact hcomma.resolve_left (not_not_intro hc)

/-- A given text without brackets and commas passes. -/
theorem passes_text {w : List Char} (h : w.all (fun c => IsInert c ∧ c ≠ ',') = true) :
    Passes stack w := by
  simp only [List.all_eq_true, decide_eq_true_eq] at h
  exact passes_of_forall (fun c hc => (h c hc).1) (.inl fun hcomma => (h _ hcomma).2 rfl)

/-- A closing bracket opens nothing. -/
theorem closer?_of_closer? {o k : Char} (h : closer? o = some k) :
    closer? k = none ∧ isCloser k = true := by
  unfold closer? at h
  split at h
  · obtain rfl := Option.some.inj h
    decide
  split at h
  · obtain rfl := Option.some.inj h
    decide
  split at h
  · obtain rfl := Option.some.inj h
    decide
  · cases h

/-- What passes inside a bracket passes with the bracket around it. -/
theorem Passes.bracket {o k : Char} (h : closer? o = some k) {w : List Char}
    (hw : Passes (k :: stack) w) : Passes stack (o :: (w ++ [k])) := by
  intro offset rest
  obtain ⟨hopen, hclose⟩ := closer?_of_closer? h
  have hlast : ∀ n, split (k :: stack) n (k :: rest) =
      (split stack (n + 1) rest).map (·.cons k) := by
    intro n
    rw [split]
    simp [hopen, hclose]
  have hlength : offset + 1 + w.length + 1 = offset + (o :: (w ++ [k])).length := by
    simp
    omega
  rw [List.cons_append, List.append_assoc, List.singleton_append, split]
  simp only [h]
  rw [hw, hlast, hlength, Option.map_map, Option.map_map]
  congr 1
  funext p
  simp [Pieces.cons, Pieces.prepend]

end Passes

/-! ## Lists -/

theorem split_close (offset : Nat) (rest : List Char) :
    split [] offset (')' :: rest) = some ⟨[], [], offset⟩ := by
  simp [split, closer?, isCloser]

theorem split_comma (offset : Nat) (rest : List Char) : split [] offset (',' :: rest) =
    (split [] (offset + 1) rest).map
      fun p => ⟨[], ⟨p.rest, offset + 1⟩ :: p.more, p.close⟩ := by
  simp [split, closer?, isCloser]

/-- A list is split into its texts; each but the first keeps the space before it. -/
theorem split_intercalate {w : List Char} {ws : List (List Char)}
    (hw : ∀ u ∈ w :: ws, Passes [] u) (offset : Nat) (rest : List Char) :
    ∃ more, split [] offset ([',', ' '].intercalate (w :: ws) ++ ')' :: rest) =
        some ⟨w, more, offset + ([',', ' '].intercalate (w :: ws)).length⟩ ∧
      more.map (·.text) = ws.map (' ' :: ·) := by
  obtain ⟨hfirst, hws⟩ := List.forall_mem_cons.1 hw
  induction ws generalizing w offset with
  | nil =>
    refine ⟨[], ?_, rfl⟩
    rw [List.intercalate_singleton, hfirst, split_close]
    simp [Pieces.prepend]
  | cons v ws ih =>
    obtain ⟨hv, hvs⟩ := List.forall_mem_cons.1 hws
    have hspace : Passes [] [' '] := passes_text (by decide)
    obtain ⟨more, hmore, htexts⟩ := ih hws (offset + w.length + 1 + 1) hv hvs
    have htext : [',', ' '].intercalate (w :: v :: ws) ++ ')' :: rest =
        w ++ ',' :: ([' '] ++ ([',', ' '].intercalate (v :: ws) ++ ')' :: rest)) := by
      rw [List.intercalate_cons_cons]
      simp
    have hlength : offset + w.length + 1 + 1 + ([',', ' '].intercalate (v :: ws)).length =
        offset + ([',', ' '].intercalate (w :: v :: ws)).length := by
      rw [List.intercalate_cons_cons]
      simp
      omega
    refine ⟨⟨' ' :: v, offset + w.length + 1⟩ :: more, ?_, by rw [List.map_cons, htexts]; rfl⟩
    rw [htext, hfirst, split_comma, hspace, List.length_singleton, hmore, hlength]
    simp [Pieces.prepend]

end Concordance.Header
