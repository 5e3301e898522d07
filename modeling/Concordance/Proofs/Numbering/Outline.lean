import Concordance.Proofs.Numbering.Run
import Mathlib.Data.List.TakeWhile

/-!
# Numbers mirror the outline of a document

The clauses and annexes of a document are a forest. A walk over it in reading order calls for the
number of every one of them at the depth given by those around it. The numbering never sees the
forest, only these depths; its counters are nevertheless the path to the last section visited, the
ordinals of the sections around it and its own, and they are so again when a walk comes back from
whatever was inside (`run_visits`).

The main statement `run_outline` says that all calls are granted and which numbers they get.
-/

namespace Concordance

/-- A clause or an annex with the sections directly inside it, in order. -/
inductive Outline where
  | node (kind : ClauseKind) (inner : List Outline)

namespace Outline

/-- The kind of the outermost section. -/
def kind : Outline → ClauseKind
  | .node kind _ => kind

/-- A section as a walk comes upon it: the sections around it, innermost first, its kind, and the
number that its place in the outline calls for. -/
structure Visit where
  around : List Outline
  kind : ClauseKind
  number : List Char

/-- The call for the number of a section. -/
def Visit.call (v : Visit) : Numbering.Call := ⟨v.around.length, v.kind⟩

mutual
/-- The sections of an outline in reading order, the outermost having a number. -/
def visits (around : List Outline) (number : List Char) : Outline → List Visit
  | .node kind inner =>
    ⟨around, kind, number⟩ ::
      visitsFrom (.node kind inner :: around) (fun i => number ++ Numbering.part i) 1 inner

/-- The sections of outlines side by side, numbered in order from an ordinal on. -/
def visitsFrom (around : List Outline) (label : Nat → List Char) (i : Nat) :
    List Outline → List Visit
  | [] => []
  | o :: os => o.visits around (label i) ++ visitsFrom around label (i + 1) os
end

/-- The sections of a document in reading order. Sections side by side are numbered in order; at the
outermost level the clauses before the first annex have digits, and all sections from this one on
have letters. -/
def walk (roots : List Outline) : List Visit :=
  visitsFrom [] (fun i => Numbering.decimal i) 1 (roots.takeWhile (·.kind = .clause)) ++
    visitsFrom [] Numbering.letters 1 (roots.dropWhile (·.kind = .clause))

end Outline

namespace Numbering

open Outline

/-! ## Runs one after another -/

/-- The state after calls. -/
def last (s : Numbering) (calls : List Call) : Numbering :=
  calls.foldl (fun s c => (s.call c).after) s

theorem run_append (s : Numbering) (cs ds : List Call) :
    run s (cs ++ ds) = run s cs ++ run (s.last cs) ds := by
  induction cs generalizing s with
  | nil => rfl
  | cons c cs ih => rw [List.cons_append, run, ih, run]; rfl

theorem last_append (s : Numbering) (cs ds : List Call) :
    s.last (cs ++ ds) = (s.last cs).last ds := List.foldl_append

/-- The calls of the visits are all granted, each the number of its visit. -/
def Grants (s : Numbering) (vs : List Visit) : Prop :=
  (run s (vs.map Visit.call)).map Step.number = vs.map fun v => .ok (String.ofList v.number)

/-- The state after the visits. -/
def lastVisit (s : Numbering) (vs : List Visit) : Numbering := s.last (vs.map Visit.call)

theorem Grants.append {s : Numbering} {vs ws : List Visit} (hv : s.Grants vs)
    (hw : (s.lastVisit vs).Grants ws) : s.Grants (vs ++ ws) := by
  unfold Grants lastVisit at *
  rw [List.map_append, run_append, List.map_append, hv, hw, List.map_append]

theorem lastVisit_append (s : Numbering) (vs ws : List Visit) :
    s.lastVisit (vs ++ ws) = (s.lastVisit vs).lastVisit ws := by
  rw [lastVisit, List.map_append, last_append]
  rfl

theorem Grants.cons {s t : Numbering} {v : Visit} {vs : List Visit}
    (h : s.next v.around.length v.kind = .ok (t, String.ofList v.number)) (hvs : t.Grants vs) :
    s.Grants (v :: vs) ∧ s.lastVisit (v :: vs) = t.lastVisit vs := by
  have hcall : s.call v.call = ⟨v.call, s, .ok (String.ofList v.number), t⟩ := by
    rw [call, Visit.call, h]
  constructor
  · rw [Grants, List.map_cons, run, hcall, List.map_cons, hvs, List.map_cons]
  · rw [lastVisit, List.map_cons, last, List.foldl_cons, hcall]
    rfl

/-! ## The path to the last section -/

/-- The last section is inside the one with this path or is this one, and the section inside it that
was visited last has this ordinal, zero if there is none yet. -/
structure Inside (s : Numbering) (inAnnex : Bool) (path : List Int) (i : Nat) : Prop where
  inAnnex_eq : s.inAnnex = inAnnex
  take_eq : s.counters.take path.length = path
  getD_eq : s.counters.getD path.length 0 = i

theorem inside_self (a : Bool) (path : List Int) : Inside ⟨path, a⟩ a path 0 where
  inAnnex_eq := rfl
  take_eq := List.take_length
  getD_eq := by
    rw [List.getD_eq_getElem?_getD, List.getElem?_eq_none (Nat.le_refl _)]
    rfl

/-- Coming back from inside a section. -/
theorem Inside.parent {s : Numbering} {a : Bool} {path : List Int} {j i : Nat}
    (h : s.Inside a (path ++ [(j : Int)]) i) : s.Inside a path j := by
  have htake := h.take_eq
  rw [List.length_append, List.length_singleton] at htake
  refine ⟨h.inAnnex_eq, ?_, ?_⟩
  · have hpath := congrArg (List.take path.length) htake
    rwa [List.take_take, Nat.min_eq_left (by omega), List.take_left] at hpath
  · have hget := congrArg (·[path.length]?) htake
    rw [List.getElem?_take_of_lt (by omega), List.getElem?_concat_length] at hget
    rw [List.getD_eq_getElem?_getD, hget, Option.getD_some]

theorem Inside.length_le {s : Numbering} {a : Bool} {path : List Int} {i : Nat}
    (h : s.Inside a path i) : path.length ≤ s.counters.length := by
  have hlen := congrArg List.length h.take_eq
  rw [List.length_take] at hlen
  omega

/-- The next section inside one. -/
theorem Inside.next {s : Numbering} {a : Bool} {path : List Int} {i : Nat} (h : s.Inside a path i)
    (hne : path ≠ []) (kind : ClauseKind) {cs : List Char}
    (htext : text ⟨path ++ [(i : Int) + 1], a⟩ = .ok cs) :
    s.next path.length kind = .ok (⟨path ++ [(i : Int) + 1], a⟩, String.ofList cs) := by
  have hpos : 0 < path.length := List.length_pos_iff.2 hne
  have hle := h.length_le
  have hadv : s.advance path.length kind = .ok ⟨path ++ [(i : Int) + 1], a⟩ := by
    rw [advance, if_neg (by omega), if_neg (by omega), if_neg (by omega), nested, Int.toNat_natCast,
      h.take_eq, h.getD_eq, h.inAnnex_eq]
  simp [Numbering.next, hadv, htext, bind, Except.bind, pure, Except.pure]

/-- The number of a section inside another one. -/
theorem text_concat {a : Bool} {path : List Int} (hne : path ≠ []) (hpos : ∀ n ∈ path, 1 ≤ n)
    {cs : List Char} (htext : text ⟨path, a⟩ = .ok cs) (n : Int) :
    text ⟨path ++ [n], a⟩ = .ok (cs ++ part n) := by
  obtain ⟨top, rest, rfl⟩ := List.exists_cons_of_ne_nil hne
  have htop : 1 ≤ top := hpos top List.mem_cons_self
  rw [text_eq htop, Except.ok.injEq] at htext
  rw [List.cons_append, text_eq htop, ← htext, List.flatMap_append, List.flatMap_singleton,
    List.append_assoc]

/-! ## Walks -/

mutual

/-- A walk over an outline whose outermost section is granted a number is granted all numbers, and
leaves the state inside this section. -/
theorem run_visits (o : Outline) {s : Numbering} {a : Bool} {path : List Int} {j : Nat}
    {around : List Outline} {cs : List Char} (hpos : ∀ n ∈ path ++ [(j : Int)], 1 ≤ n)
    (hdepth : around.length = path.length) (htext : text ⟨path ++ [(j : Int)], a⟩ = .ok cs)
    (h : s.next path.length o.kind = .ok (⟨path ++ [(j : Int)], a⟩, String.ofList cs)) :
    s.Grants (o.visits around cs) ∧ (s.lastVisit (o.visits around cs)).Inside a path j := by
  match o with
  | .node kind inner =>
    have hinner : (node kind inner :: around).length = (path ++ [(j : Int)]).length := by
      simp [hdepth]
    obtain ⟨hgrants, hlast⟩ := run_visitsFrom inner (by simp) hpos hinner htext (inside_self a _)
    rw [← hdepth] at h
    obtain ⟨hcons, heq⟩ := Grants.cons (v := ⟨around, kind, cs⟩) h hgrants
    rw [visits]
    refine ⟨hcons, ?_⟩
    rw [heq]
    exact hlast.parent

/-- A walk over the outlines that are left inside a section. -/
theorem run_visitsFrom (os : List Outline) {s : Numbering} {a : Bool} {path : List Int} {i : Nat}
    {around : List Outline} {cs : List Char} (hne : path ≠ []) (hpos : ∀ n ∈ path, 1 ≤ n)
    (hdepth : around.length = path.length) (htext : text ⟨path, a⟩ = .ok cs)
    (h : s.Inside a path i) :
    s.Grants (visitsFrom around (fun i => cs ++ part i) (i + 1) os) ∧
      (s.lastVisit (visitsFrom around (fun i => cs ++ part i) (i + 1) os)).Inside a path
        (i + os.length) := by
  match os with
  | [] => exact ⟨rfl, h⟩
  | o :: os =>
    have hone : ∀ n ∈ path ++ [((i + 1 : Nat) : Int)], 1 ≤ n := by
      intro n hn
      rcases List.mem_append.1 hn with hn | hn
      · exact hpos n hn
      · rw [List.mem_singleton.1 hn]
        omega
    have hconcat := text_concat hne hpos htext ((i + 1 : Nat) : Int)
    obtain ⟨hgrants, hlast⟩ := run_visits o hone hdepth hconcat (h.next hne o.kind hconcat)
    obtain ⟨hgrants', hlast'⟩ := run_visitsFrom os hne hpos hdepth htext hlast
    have hlength : i + (o :: os).length = i + 1 + os.length := by
      rw [List.length_cons]
      omega
    rw [visitsFrom, lastVisit_append, hlength]
    exact ⟨hgrants.append hgrants', hlast'⟩

end

/-! ## The outermost level -/

/-- The next section at the outermost level. -/
theorem next_zero {s : Numbering} {kind : ClauseKind} {a : Bool} {j : Nat} (hj : 0 < j)
    (h : s.top kind = ⟨[(j : Int)], a⟩) :
    text ⟨[(j : Int)], a⟩ = .ok (front a j) ∧
      s.next 0 kind = .ok (⟨[(j : Int)], a⟩, String.ofList (front a j)) := by
  have htext : text ⟨[(j : Int)], a⟩ = .ok (front a j) := by
    rw [text_eq (by omega), List.flatMap_nil, List.append_nil]
  refine ⟨htext, ?_⟩
  simp [Numbering.next, advance, h, htext, bind, Except.bind, pure, Except.pure]

theorem run_root (o : Outline) {s : Numbering} {a : Bool} {j : Nat} (hj : 0 < j)
    (h : s.top o.kind = ⟨[(j : Int)], a⟩) :
    s.Grants (o.visits [] (front a j)) ∧ (s.lastVisit (o.visits [] (front a j))).Inside a [] j := by
  obtain ⟨htext, hnext⟩ := next_zero hj h
  have hpos : ∀ n ∈ [] ++ [(j : Int)], 1 ≤ n := by
    rw [List.nil_append, List.forall_mem_singleton]
    omega
  have hdepth : ([] : List Outline).length = ([] : List Int).length := rfl
  exact run_visits o hpos hdepth htext hnext

/-- The sections at the outermost level on one side of the first annex. -/
theorem run_roots (os : List Outline) {s : Numbering} {a : Bool} {i : Nat}
    (hkind : a = false → ∀ o ∈ os, o.kind = .clause) (h : s.Inside a [] i) :
    s.Grants (visitsFrom [] (fun i => front a i) (i + 1) os) ∧
      (s.lastVisit (visitsFrom [] (fun i => front a i) (i + 1) os)).Inside a []
        (i + os.length) := by
  induction os generalizing s i with
  | nil => exact ⟨rfl, h⟩
  | cons o os ih =>
    have htop : s.top o.kind = ⟨[((i + 1 : Nat) : Int)], a⟩ := by
      have hget : s.counters.headD 0 = i := by
        rw [List.headD_eq_head?_getD, List.head?_eq_getElem?, ← List.getD_eq_getElem?_getD]
        exact h.getD_eq
      have hno : ¬(o.kind = .annex ∧ s.inAnnex = false) := by
        rintro ⟨ho, hs⟩
        rw [hkind (h.inAnnex_eq.symm.trans hs) o List.mem_cons_self] at ho
        cases ho
      rw [top, if_neg hno, hget, h.inAnnex_eq]
      rfl
    obtain ⟨hgrants, hlast⟩ := run_root o (Nat.succ_pos i) htop
    obtain ⟨hgrants', hlast'⟩ := ih (fun ha o ho => hkind ha o (List.mem_cons_of_mem _ ho)) hlast
    have hlength : i + (o :: os).length = i + 1 + os.length := by
      rw [List.length_cons]
      omega
    rw [visitsFrom, lastVisit_append, hlength]
    exact ⟨hgrants.append hgrants', hlast'⟩

/-- The sections from the first annex on. -/
theorem run_annexes (os : List Outline) {s : Numbering} (hs : s.inAnnex = false)
    (hos : ∀ o ∈ os.head?, o.kind = .annex) : s.Grants (visitsFrom [] letters 1 os) := by
  cases os with
  | nil => rfl
  | cons o os =>
    have htop : s.top o.kind = ⟨[((1 : Nat) : Int)], true⟩ := by
      rw [top, if_pos ⟨hos o rfl, hs⟩]
      rfl
    obtain ⟨hgrants, hlast⟩ := run_root o Nat.one_pos htop
    exact hgrants.append (run_roots os (by simp) hlast).1

/-- **Numbers mirror the outline.** A walk over the sections of a document in reading order is
granted a number for every one of them, and it is the number that its place calls for: the `i`-th
section inside one has the number of this one, a point and `i`; the clauses at the outermost level
before the first annex are numbered from one on, and from the first annex on the sections there have
letters from A on, whatever their kind. -/
theorem run_outline (roots : List Outline) :
    (run start ((walk roots).map Visit.call)).map Step.number =
      (walk roots).map fun v => .ok (String.ofList v.number) := by
  have hclauses := run_roots (roots.takeWhile (·.kind = .clause)) (s := start) (a := false) (i := 0)
    (fun _ o ho => by simpa using List.mem_takeWhile_imp ho) (inside_self false [])
  have hannex : ∀ o ∈ (roots.dropWhile (·.kind = .clause)).head?, o.kind = .annex := by
    intro o ho
    have hne := List.head?_dropWhile_not (fun o : Outline => decide (o.kind = .clause)) roots
    rw [Option.mem_def.1 ho] at hne
    cases hk : o.kind with
    | clause => simp [hk] at hne
    | annex => rfl
  exact hclauses.1.append (run_annexes _ hclauses.2.inAnnex_eq hannex)

/-- A clause with a clause inside, an annex with an annex inside, and a clause. -/
example : (walk [.node .clause [.node .clause []], .node .annex [.node .annex []],
    .node .clause []]).map (fun v => String.ofList v.number) = ["1", "1.1", "A", "A.1", "B"] := by
  cbv

end Numbering

end Concordance
