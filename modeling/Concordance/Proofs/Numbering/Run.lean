import Concordance.Proofs.Numbering.Text
import Mathlib.Data.List.Lex
import Mathlib.Data.Prod.Lex
import Mathlib.Order.BooleanAlgebra.Basic

/-!
# Runs of the numbering

The numbering of a document is one state on which calls for the next number are made one after
another. `call_cases` says all that a call can do: it is granted a number for a depth up to the
deepest counter, and otherwise it is refused and leaves the state as it was. States are ordered by
their `place`, main body before annexes and then counters in lexicographic order; a granted call
moves the state up in this order (`place_lt_of_advance`), which is what keeps a run from giving a
number twice.

The main statement is `run_numbers_distinct`.
-/

namespace Concordance.Numbering

/-! ## The order of states -/

/-- The place of a state: the main body comes before the annexes, and counters are compared from
the outermost on, a part of them coming before the whole. -/
def place (s : Numbering) : Bool ×ₗ List Int := toLex (s.inAnnex, s.counters)

theorem place_lt_iff {s t : Numbering} : s.place < t.place ↔
    (s.inAnnex = false ∧ t.inAnnex = true) ∨ s.inAnnex = t.inAnnex ∧ s.counters < t.counters := by
  rw [place, place, Prod.Lex.toLex_lt_toLex, Bool.lt_iff]

theorem inAnnex_of_place_le {s t : Numbering} (h : s.place ≤ t.place) (hs : s.inAnnex = true) :
    t.inAnnex = true := by
  rcases h.lt_or_eq with hlt | heq
  · rcases place_lt_iff.1 hlt with ⟨hs', -⟩ | ⟨heq, -⟩
    · rw [hs] at hs'
      cases hs'
    · rwa [← heq]
  · rw [place, place, toLex_inj, Prod.mk.injEq] at heq
    rwa [← heq.1]

theorem singleton_headD_lt (cs : List Int) : cs < [cs.headD 0 + 1] := by
  cases cs with
  | nil => exact List.nil_lt_cons _ _
  | cons c cs => exact List.cons_lt_cons_iff.2 (.inl (Int.lt_succ c))

/-- Raising the counter of a level and dropping the deeper ones. -/
theorem lt_take_append (cs : List Int) (n : Nat) : cs < cs.take n ++ [cs.getD n 0 + 1] := by
  have hdrop : cs.drop n < [cs.getD n 0 + 1] := by
    have hhead : cs.getD n 0 = (cs.drop n).headD 0 := by
      rw [List.getD_eq_getElem?_getD, ← List.head?_drop, List.headD_eq_head?_getD]
    rw [hhead]
    exact singleton_headD_lt _
  calc cs = cs.take n ++ cs.drop n := (List.take_append_drop n cs).symm
    _ < cs.take n ++ [cs.getD n 0 + 1] := List.append_left_lt hdrop

/-! ## One call -/

/-- The clause after which a state is reached: at the outermost level, or inside another clause. -/
theorem advance_cases {s t : Numbering} {depth : Int} {kind : ClauseKind}
    (h : s.advance depth kind = .ok t) : (depth = 0 ∧ t = s.top kind) ∨
      ∃ n : Nat, depth = n ∧ 0 < n ∧ n ≤ s.counters.length ∧ t = s.nested n := by
  unfold advance at h
  split at h
  · cases h
  · split at h
    · next h₀ => exact .inl ⟨h₀, (Except.ok.inj h).symm⟩
    · split at h
      · cases h
      · refine .inr ⟨depth.toNat, by omega, by omega, by omega, (Except.ok.inj h).symm⟩

theorem top_cases (s : Numbering) (kind : ClauseKind) :
    (s.inAnnex = false ∧ s.top kind = ⟨[1], true⟩) ∨
      s.top kind = ⟨[s.counters.headD 0 + 1], s.inAnnex⟩ := by
  rw [top]
  split
  · next h => exact .inl ⟨h.2, rfl⟩
  · exact .inr rfl

/-- A clause moves the state up in the order. -/
theorem place_lt_of_advance {s t : Numbering} {depth : Int} {kind : ClauseKind}
    (h : s.advance depth kind = .ok t) : s.place < t.place := by
  rw [place_lt_iff]
  rcases advance_cases h with ⟨-, rfl⟩ | ⟨n, -, -, -, rfl⟩
  · rcases top_cases s kind with ⟨hs, heq⟩ | heq
    · rw [heq]
      exact .inl ⟨hs, rfl⟩
    · rw [heq]
      exact .inr ⟨rfl, singleton_headD_lt _⟩
  · exact .inr ⟨rfl, lt_take_append _ _⟩

theorem one_le_getD {cs : List Int} (h : ∀ c ∈ cs, 1 ≤ c) (n : Nat) : 1 ≤ cs.getD n 0 + 1 := by
  rw [List.getD_eq_getElem?_getD]
  cases hc : cs[n]? with
  | none => simp
  | some c =>
    have := h c (List.mem_of_getElem? hc)
    rw [Option.getD_some]
    omega

theorem Positive.advance {s t : Numbering} (hs : s.Positive) {depth : Int} {kind : ClauseKind}
    (h : s.advance depth kind = .ok t) : t.Positive ∧ t.counters ≠ [] := by
  have htop : 1 ≤ s.counters.headD 0 + 1 := by
    have hget := one_le_getD hs 0
    rwa [List.getD_eq_getElem?_getD, ← List.head?_eq_getElem?,
      ← List.headD_eq_head?_getD] at hget
  rcases advance_cases h with ⟨-, rfl⟩ | ⟨n, -, -, -, rfl⟩
  · rcases top_cases s kind with ⟨-, heq⟩ | heq
    · simp [heq, Positive]
    · rw [heq]
      exact ⟨List.forall_mem_singleton.2 htop, by simp⟩
  · refine ⟨fun c hc => ?_, by simp [nested]⟩
    rcases List.mem_append.1 hc with hc | hc
    · exact hs c (List.mem_of_mem_take hc)
    · rw [List.mem_singleton.1 hc]
      exact one_le_getD hs n

/-- The depths at which a state can number a clause. -/
theorem exists_advance_iff {s : Numbering} {depth : Int} {k : ClauseKind} :
    (∃ t, s.advance depth k = .ok t) ↔ 0 ≤ depth ∧ depth ≤ s.counters.length := by
  constructor
  · rintro ⟨t, h⟩
    rcases advance_cases h with ⟨h₀, -⟩ | ⟨n, hn, -, hle, -⟩
    · omega
    · omega
  · rintro ⟨h₀, hle⟩
    rw [advance, if_neg (by omega)]
    split
    · exact ⟨_, rfl⟩
    · rw [if_neg (by omega)]
      exact ⟨_, rfl⟩

/-- A clause inside as many others as the last number has counters, or fewer, gets the next number,
which has one counter more than there are clauses around it. A clause inside more is refused. -/
theorem next_cases {s : Numbering} (hs : s.Positive) (depth : Nat) (kind : ClauseKind) :
    (depth ≤ s.counters.length ∧ ∃ t number, s.next depth kind = .ok (t, number) ∧ t.Positive ∧
      t.counters.length = depth + 1) ∨
    (s.counters.length < depth ∧
      s.next depth kind = .error (.noParent depth s.counters.length)) := by
  rcases Nat.lt_or_ge s.counters.length depth with hlt | hle
  · have hadv : s.advance depth kind = .error (.noParent depth s.counters.length) := by
      rw [advance, if_neg (by omega), if_neg (by omega), if_pos (by omega)]
    exact .inr ⟨hlt, by simp [next, hadv, bind, Except.bind]⟩
  · have hin : (0 : Int) ≤ depth ∧ (depth : Int) ≤ s.counters.length := by omega
    obtain ⟨t, hadv⟩ := (exists_advance_iff (k := kind)).2 hin
    obtain ⟨ht, -⟩ := hs.advance hadv
    obtain ⟨cs, hcs⟩ := exists_text ht
    refine .inl ⟨hle, t, String.ofList cs, ?_, ht, ?_⟩
    · simp [next, hadv, hcs, bind, Except.bind, pure, Except.pure]
    · rcases advance_cases hadv with ⟨hzero, rfl⟩ | ⟨n, hn, -, -, rfl⟩
      · rcases top_cases s kind with ⟨-, heq⟩ | heq
        · rw [heq, List.length_singleton]
          omega
        · rw [heq, List.length_singleton]
          omega
      · rw [nested, List.length_append, List.length_take, List.length_singleton]
        omega

/-- A call for the number of a clause that is inside so many others. -/
structure Call where
  depth : Int
  kind : ClauseKind

/-- A call with the states before and after it and the number that it was granted. -/
structure Step where
  call : Call
  before : Numbering
  number : Except Fault String
  after : Numbering

/-- A call made on a state. -/
def call (s : Numbering) (c : Call) : Step :=
  match s.next c.depth c.kind with
  | .ok (t, number) => ⟨c, s, .ok number, t⟩
  | .error f => ⟨c, s, .error f, s⟩

/-- All that a call can do to a state with positive counters. -/
theorem call_cases {s : Numbering} (hs : s.Positive) (c : Call) :
    (0 ≤ c.depth ∧ c.depth ≤ s.counters.length ∧ ∃ t cs, s.advance c.depth c.kind = .ok t ∧
      t.text = .ok cs ∧ s.call c = ⟨c, s, .ok (String.ofList cs), t⟩) ∨
    ((c.depth < 0 ∨ s.counters.length < c.depth) ∧ ∃ f, s.call c = ⟨c, s, .error f, s⟩) := by
  cases hadv : s.advance c.depth c.kind with
  | ok t =>
    obtain ⟨cs, hcs⟩ := exists_text (hs.advance hadv).1
    obtain ⟨h₀, hle⟩ := exists_advance_iff.1 ⟨t, hadv⟩
    refine .inl ⟨h₀, hle, t, cs, rfl, hcs, ?_⟩
    simp [call, next, hadv, hcs, bind, Except.bind, pure, Except.pure]
  | error f =>
    have hno : ¬(0 ≤ c.depth ∧ c.depth ≤ s.counters.length) := by
      intro hin
      obtain ⟨t, ht⟩ := (exists_advance_iff (k := c.kind)).2 hin
      rw [hadv] at ht
      cases ht
    refine .inr ⟨by omega, f, ?_⟩
    simp [call, next, hadv, bind, Except.bind]

/-! ## Runs -/

/-- The steps of calls made one after another. -/
def run : Numbering → List Call → List Step
  | _, [] => []
  | s, c :: cs => s.call c :: run (s.call c).after cs

/-- The numbers that steps were granted, each with the state after it. -/
def granted (steps : List Step) : List (Numbering × String) :=
  steps.filterMap fun s => s.number.toOption.map fun number => (s.after, number)

section Run

variable {s : Numbering}

theorem Positive.call (hs : s.Positive) (c : Call) : (s.call c).after.Positive := by
  rcases call_cases hs c with ⟨-, -, t, cs, hadv, -, heq⟩ | ⟨-, f, heq⟩
  · rw [heq]
    exact (hs.advance hadv).1
  · rw [heq]
    exact hs

theorem place_le_call (hs : s.Positive) (c : Call) : s.place ≤ (s.call c).after.place := by
  rcases call_cases hs c with ⟨-, -, t, cs, hadv, -, heq⟩ | ⟨-, f, heq⟩
  · rw [heq]
    exact (place_lt_of_advance hadv).le
  · rw [heq]

/-- What every call ensures, every step of a run ensures. -/
theorem forall_mem_run {P : Step → Prop} (hP : ∀ s : Numbering, s.Positive → ∀ c, P (s.call c))
    (hs : s.Positive) (calls : List Call) : ∀ step ∈ run s calls, P step := by
  induction calls generalizing s with
  | nil => exact List.forall_mem_nil _
  | cons c calls ih =>
    rw [run]
    exact List.forall_mem_cons.2 ⟨hP s hs c, ih (hs.call c)⟩

theorem place_le_of_mem_run (hs : s.Positive) (calls : List Call) :
    ∀ step ∈ run s calls, s.place ≤ step.after.place := by
  induction calls generalizing s with
  | nil => exact List.forall_mem_nil _
  | cons c calls ih =>
    rw [run]
    have hle := place_le_call hs c
    refine List.forall_mem_cons.2 ⟨hle, ?_⟩
    intro step h
    exact hle.trans (ih (hs.call c) step h)

/-- A run never moves the state down. -/
theorem pairwise_place_le (hs : s.Positive) (calls : List Call) :
    (run s calls).Pairwise fun a b => a.after.place ≤ b.after.place := by
  induction calls generalizing s with
  | nil => exact .nil
  | cons c calls ih =>
    rw [run]
    exact .cons (place_le_of_mem_run (hs.call c) calls) (ih (hs.call c))

theorem mem_granted_iff {steps : List Step} {t : Numbering} {number : String} :
    (t, number) ∈ granted steps ↔ ∃ step ∈ steps, step.number = .ok number ∧ step.after = t := by
  rw [granted, List.mem_filterMap]
  refine exists_congr fun step => and_congr_right fun _ => ?_
  cases step.number with
  | error f => simp [Except.toOption]
  | ok n => simp [Except.toOption, and_comm]

/-- Every granted number moves the state up. -/
theorem pairwise_granted (hs : s.Positive) (calls : List Call) :
    (s.place :: (granted (run s calls)).map (·.1.place)).Pairwise (· < ·) := by
  induction calls generalizing s with
  | nil => exact List.pairwise_singleton _ _
  | cons c calls ih =>
    have hrest := ih (hs.call c)
    rcases call_cases hs c with ⟨-, -, t, cs, hadv, -, heq⟩ | ⟨-, f, heq⟩
    · rw [heq] at hrest
      rw [run, heq, granted, List.filterMap_cons]
      have hlt := place_lt_of_advance hadv
      refine List.pairwise_cons.2 ⟨List.forall_mem_cons.2 ⟨hlt, ?_⟩, hrest⟩
      intro p hp
      exact hlt.trans (List.rel_of_pairwise_cons hrest hp)
    · rw [heq] at hrest
      rw [run, heq, granted, List.filterMap_cons]
      exact hrest

/-- A granted number is the text of the state after it. -/
theorem text_of_mem_granted (hs : s.Positive) {calls : List Call} {t : Numbering} {number : String}
    (h : (t, number) ∈ granted (run s calls)) :
    t.Positive ∧ t.counters ≠ [] ∧ t.text = .ok number.toList := by
  obtain ⟨step, hmem, hnumber, rfl⟩ := mem_granted_iff.1 h
  refine forall_mem_run (P := fun step => ∀ number, step.number = .ok number →
    step.after.Positive ∧ step.after.counters ≠ [] ∧ step.after.text = .ok number.toList)
    (fun s hs c number hnumber => ?_) hs calls step hmem number hnumber
  rcases call_cases hs c with ⟨-, -, t, cs, hadv, htext, heq⟩ | ⟨-, f, heq⟩
  · rw [heq] at hnumber ⊢
    obtain rfl := Except.ok.inj hnumber
    rw [String.toList_ofList]
    exact ⟨(hs.advance hadv).1, (hs.advance hadv).2, htext⟩
  · rw [heq] at hnumber
    cases hnumber

theorem nodup_granted (hs : s.Positive) (calls : List Call) :
    ((granted (run s calls)).map (·.2)).Nodup := by
  have hplaces := List.pairwise_map.1 (pairwise_granted hs calls).of_cons
  refine List.pairwise_map.2 (hplaces.imp_of_mem ?_)
  rintro ⟨t, number⟩ ⟨t', number'⟩ hmem hmem' hlt heq
  obtain ⟨hpos, hne, htext⟩ := text_of_mem_granted hs hmem
  obtain ⟨hpos', hne', htext'⟩ := text_of_mem_granted hs hmem'
  dsimp only at heq hlt
  rw [← heq] at htext'
  rw [text_injective hpos hpos' hne hne' htext htext'] at hlt
  exact lt_irrefl _ hlt

end Run

theorem positive_start : start.Positive := fun _ h => absurd h List.not_mem_nil

/-- **A run gives no number twice.** Whatever calls are made on the state before the first clause,
the numbers granted are distinct and their states increase, the first state being below all of
them; all counters are positive; once in the annexes, the state stays there. A call is refused
exactly where its depth is negative or beyond the deepest counter, and then leaves the state as it
was. -/
theorem run_numbers_distinct (calls : List Call) :
    ((granted (run start calls)).map (·.2)).Nodup ∧
    (start.place :: (granted (run start calls)).map (·.1.place)).Pairwise (· < ·) ∧
    (∀ step ∈ run start calls, ∀ n ∈ step.after.counters, 1 ≤ n) ∧
    ((run start calls).Pairwise fun a b => a.after.inAnnex = true → b.after.inAnnex = true) ∧
    (∀ step ∈ run start calls, (∃ f, step.number = .error f) ↔
      step.call.depth < 0 ∨ step.before.counters.length < step.call.depth) ∧
    ∀ step ∈ run start calls, ∀ f, step.number = .error f → step.after = step.before := by
  refine ⟨nodup_granted positive_start calls, pairwise_granted positive_start calls, ?_, ?_, ?_, ?_⟩
  · exact forall_mem_run (fun s hs c => hs.call c) positive_start calls
  · exact (pairwise_place_le positive_start calls).imp inAnnex_of_place_le
  · refine forall_mem_run (fun s hs c => ?_) positive_start calls
    rcases call_cases hs c with ⟨h₀, hle, t, cs, -, -, heq⟩ | ⟨hout, f, heq⟩
    · rw [heq]
      exact iff_of_false nofun (by dsimp only; omega)
    · rw [heq]
      exact iff_of_true ⟨f, rfl⟩ hout
  · refine forall_mem_run (fun s hs c f hf => ?_) positive_start calls
    rcases call_cases hs c with ⟨-, -, t, cs, -, -, heq⟩ | ⟨-, f', heq⟩
    · rw [heq] at hf
      cases hf
    · rw [heq]

end Concordance.Numbering
