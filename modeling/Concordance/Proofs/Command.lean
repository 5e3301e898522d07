import Concordance.Command
import Concordance.Proofs.Build.Imports
import Concordance.Proofs.Index.Reload

/-!
# How the command ends

Before the build the command loads what it imports, and a snapshot whose entries make no index is a
failure of the command. From then on an index that cannot be made gives the exit status 1, and this
happens for an id that is there twice and for nothing else (`IdTwice`): what a page declares never
refers to an id that is not there, and an import that could be loaded does not either.

The main statement `carryOut_status` follows a request through all of its stages: the options, the first
pass over the page (`firstPass_declared`), the merge (`idTwice_iff_clash`), the second pass and what
is left behind (`answer_cases`).
-/

namespace Concordance

namespace Command

open Build Node

/-! ## Options -/

variable {r : Request} {ess : List (List Entry)}

/-- The policy of a request. -/
def policy (r : Request) : MergePolicy := if r.supplementary then .localWins else .strict

theorem policy_eq_strict_iff : policy r = .strict ↔ r.supplementary = false := by
  unfold policy
  cases r.supplementary with
  | false => simp
  | true => simp

theorem ofName?_policyName (r : Request) :
    MergePolicy.ofName? (policyName r) = some (policy r) := by
  unfold policyName policy
  cases r.supplementary with
  | false => rfl
  | true => rfl

/-- Snapshots whose entries make an index each are loaded. -/
theorem exists_loaded {imports : List (String × String)}
    (himports : List.Forall₂ (fun i es => Snapshot.entries? i.2 = some es) imports ess)
    (hess : ∀ es ∈ ess, Index.Consistent es) : ∃ external : List Index,
      List.Forall₂ (fun i ix => Snapshot.load i.1 i.2 = .ok ix) imports external ∧
      (∀ ix ∈ external, ix.Sealed) ∧ external.map Index.entries = ess := by
  induction himports with
  | nil => exact ⟨[], .nil, by simp, rfl⟩
  | @cons i es imports ess hi _ ih =>
    obtain ⟨hes, hess⟩ := List.forall_mem_cons.1 hess
    obtain ⟨external, hload, hsealed, hentries⟩ := ih hess
    obtain ⟨ix, hix, hs, heq⟩ := hes.exists_frozen
    refine ⟨ix :: external, .cons ?_ hload, List.forall_mem_cons.2 ⟨hs, hsealed⟩, ?_⟩
    · rw [Snapshot.load_of_entries? hi, hix]
      rfl
    · rw [List.map_cons, heq, hentries]

section Options

variable (himports : List.Forall₂ (fun i es => Snapshot.entries? i.2 = some es) r.imports ess)
include himports

theorem options_ok (hscope : r.scope ≠ "") (hess : ∀ es ∈ ess, Index.Consistent es) :
    ∃ external : List Index, options r = .ok ⟨r.scope, external, policy r⟩ ∧
      (∀ ix ∈ external, ix.Sealed) ∧ external.map Index.entries = ess := by
  obtain ⟨external, hload, hsealed, hentries⟩ := exists_loaded himports hess
  refine ⟨external, bind_ok_iff.2 ⟨external, ?_, ?_⟩, hsealed, hentries⟩
  · exact mapM_ok_iff.2 (hload.imp fun _ _ h => mapError_ok_iff.2 h)
  · rw [BuildOptions.make?, if_neg hscope, ofName?_policyName]
    rfl

theorem options_error (hess : ∃ es ∈ ess, ¬Index.Consistent es) :
    ∃ f, options r = .error (.snapshot (.index f)) := by
  have hloads : ∃ e, (r.imports.mapM fun i => (Snapshot.load i.1 i.2).mapError Failure.snapshot) =
      .error e ∧ ∃ f, e = .snapshot (.index f) := by
    refine exists_mapM_error (fun i hi e he => ?_) ?_
    · obtain ⟨es, hes⟩ := exists_of_forall₂ himports hi
      rw [Snapshot.load_of_entries? hes, mapError_error_iff] at he
      obtain ⟨f, hf, rfl⟩ := he
      obtain ⟨g, -, rfl⟩ := mapError_error_iff.1 hf
      exact ⟨g, rfl⟩
    · obtain ⟨es, hmem, hnot⟩ := hess
      obtain ⟨i, hi, hes⟩ := exists_mem_of_forall₂ himports hmem
      refine ⟨i, hi, fun ix hix => hnot ?_⟩
      rw [Snapshot.load_of_entries? hes, mapError_ok_iff, mapError_ok_iff] at hix
      exact Index.consistent_of_frozen hix
  obtain ⟨_, hload, f, rfl⟩ := hloads
  exact ⟨f, bind_error_iff.2 (.inl hload)⟩

end Options

/-! ## Stages of a run -/

variable {read : Markup.Reader}

/-- The page of a request is as it is read. -/
theorem asRead_of_document (hread : read.Fresh) {page : Node} (h : document read r = .ok page) :
    AsRead page := by
  unfold document at h
  split at h
  · next nodes hnodes =>
    obtain rfl := Except.ok.inj h
    exact hread.asRead hnodes
  · cases h

section Stages

variable {o : BuildOptions} (ho : options r = .ok o)
include ho

/-- Where the reader refuses the page, the command fails. -/
theorem carryOut_of_refused {e : Markup.Refusal} (h : read (unixLines r.page.toList) = .error e) :
    carryOut read r = .error (.markup e) := by
  simp only [carryOut, document, ho, h, bind, Except.bind]

variable {page : Node} (hpage : document read r = .ok page)
include hpage

theorem carryOut_of_built {b : BuildResult} (h : Build.run o page = .ok b) :
    carryOut read r = answer r b := by
  simp only [carryOut, ho, hpage, h, bind, Except.bind]

/-- A build that is given up for an id that is there twice gives the exit status 1. -/
theorem carryOut_of_isTakenId {a : Aborted} (h : Build.run o page = .error a)
    (hfault : a.fault.IsTakenId) : carryOut read r = .ok ⟨1, none, none⟩ := by
  obtain ⟨id, hid⟩ := hfault
  simp only [carryOut, ho, hpage, h, hid, bind, Except.bind]
  rfl

theorem carryOut_of_not_isStatus {a : Aborted} (h : Build.run o page = .error a)
    (hfault : isStatus a.fault = false) : carryOut read r = .error (.build a.fault) := by
  simp only [carryOut, ho, hpage, h, hfault, bind, Except.bind]
  rfl

end Stages

/-! ## What is left behind -/

/-- Where operations are textual, all ids are texts. -/
theorem hasTextIds_of_textual {ix : Index}
    (h : ∀ o, .operation o ∈ ix.entries → o.Textual) : (Snapshot.ofIndex ix).hasTextIds = true := by
  rw [Snapshot.hasTextIds, List.all_eq_true]
  intro m hm
  obtain ⟨e, he, rfl⟩ := List.mem_map.1 hm
  obtain ⟨he, hset⟩ := List.mem_filter.1 he
  cases e with
  | clause c => rfl
  | table t => rfl
  | operation o =>
    obtain ⟨id, -, -, hid, -⟩ := h o he
    obtain ⟨s, hs⟩ := Json.exists_string_of_isSet (hid ▸ hset : (Json.ofOption id).isSet = true)
    simp only [Entry.id, hid, hs]

/-- What a finished build leaves behind is what was asked for, unless its index cannot be stored. -/
theorem answer_cases (r : Request) (b : BuildResult) :
    (∃ snapshot page, answer r b = .ok ⟨0, snapshot, page⟩ ∧
      snapshot.isSome = r.wantsSnapshot ∧ page.isSome = r.wantsPage) ∨
    (answer r b = .error .unstorable ∧ r.wantsSnapshot = true ∧
      (Snapshot.ofIndex b.index).store? = none) := by
  have hpage : (if r.wantsPage then some (Markup.printDocument b.root) else none).isSome =
      r.wantsPage := by
    cases r.wantsPage with
    | false => rfl
    | true => rfl
  cases hwants : r.wantsSnapshot with
  | false =>
    refine .inl ⟨none, _, ?_, rfl, hpage⟩
    simp only [answer, hwants]
    rfl
  | true =>
    cases hstore : (Snapshot.ofIndex b.index).store? with
    | some text =>
      refine .inl ⟨some text, _, ?_, rfl, hpage⟩
      simp only [answer, hwants, hstore]
      rfl
    | none =>
      refine .inr ⟨?_, rfl, rfl⟩
      simp only [answer, hwants, hstore]
      rfl

/-! ## The exit status -/

/-- An id is there twice: among what a page declares before a clause of it is refused a number; or,
if none is refused, among the entries of all imports, or else in an import and in the page, where
imports are not supplementary. -/
def IdTwice (r : Request) (page : Node) (ess : List (List Entry)) : Prop :=
  ¬(Action.declared (Survey.ofRoot r.scope page).2.actions).Pairwise Entry.Apart ∨
    (Survey.ofRoot r.scope page).2.actions.any Action.isHalt = false ∧
      (¬ess.flatten.Pairwise Entry.Apart ∨
        r.supplementary = false ∧ ∃ e ∈ ess.flatten,
          ∃ e' ∈ Action.declared (Survey.ofRoot r.scope page).2.actions, ¬e'.Apart e)

/-- An index that takes no more entries clashes with imports where an id is there twice. -/
theorem clash_iff {ix : Index} {external : List Index} (hix : ix.Sealed)
    (hsealed : ∀ x ∈ external, x.Sealed) (hentries : external.map Index.entries = ess) :
    ix.Clash (policy r) external ↔ ¬ess.flatten.Pairwise Entry.Apart ∨
      r.supplementary = false ∧ ∃ e ∈ ess.flatten, ∃ e' ∈ ix.entries, ¬e'.Apart e := by
  have hflat : external.flatMap Index.entries = ess.flatten := by
    rw [List.flatMap_def, hentries]
  have htaken : ∀ e ∈ ess.flatten, ix.isTaken e = true ↔ ∃ e' ∈ ix.entries, ¬e'.Apart e :=
    fun e he => by
      rw [← Bool.not_eq_false, Index.isTaken_eq_false_iff hix.coherent
        (Index.insertable_of_sealed hsealed e (hflat ▸ he))]
      push Not
      rfl
  rw [Index.Clash, hflat, policy_eq_strict_iff]
  exact or_congr_right <| and_congr_right fun _ => exists_congr fun e => and_congr_right (htaken e)

/-- The index of a page in which no clause is refused a number has all that the page declares. -/
theorem entries_of_firstPass {as : List Action} {ix : Index} {ds : List Diagnostic}
    (h : firstPass as = .ok (ix, ds)) (hany : as.any Action.isHalt = false) :
    ix.entries = Action.declared as := by
  rw [(firstPass_ok h).2.2.1, Action.declared_eq_additions hany]

theorem idTwice_iff_clash {page : Node} {external : List Index}
    (hsealed : ∀ x ∈ external, x.Sealed) (hentries : external.map Index.entries = ess)
    {ix : Index} {ds : List Diagnostic}
    (hfirst : firstPass (Survey.ofRoot r.scope page).2.actions = .ok (ix, ds))
    (hap : (Action.declared (Survey.ofRoot r.scope page).2.actions).Pairwise Entry.Apart)
    (hany : (Survey.ofRoot r.scope page).2.actions.any Action.isHalt = false) :
    IdTwice r page ess ↔ ix.Clash (policy r) external := by
  obtain ⟨hc, hf, -⟩ := firstPass_ok hfirst
  rw [clash_iff ⟨hc, hf⟩ hsealed hentries, entries_of_firstPass hfirst hany, IdTwice]
  simp only [hap, hany, not_true_eq_false, false_or, true_and]

section Finished

variable {page : Node} (hpage : document read r = .ok page) {external : List Index}
  (ho : options r = .ok ⟨r.scope, external, policy r⟩)
  (hsealed : ∀ ix ∈ external, ix.Sealed) {ix : Index} {ds : List Diagnostic}
  (hfirst : firstPass (Survey.ofRoot r.scope page).2.actions = .ok (ix, ds))
include hpage ho hsealed hfirst

/-- Where the imports clash with what the page declares, the exit status is 1. -/
theorem carryOut_of_clash (hclash : ix.Clash (policy r) external) :
    carryOut read r = .ok ⟨1, none, none⟩ := by
  obtain ⟨hc, hf, -⟩ := firstPass_ok hfirst
  obtain ⟨id, hid⟩ := mergedIndex_error (o := ⟨r.scope, external, policy r⟩) ⟨hc, hf⟩ hsealed hclash
  exact carryOut_of_isTakenId ho hpage (run_of_mergedIndex_error hfirst hid) ⟨id, rfl⟩

/-- Where they do not, the request is carried out, unless a listing cannot be written for a method
that an import has, or the index of the page cannot be stored. -/
theorem carryOut_of_not_clash (hentries : external.map Index.entries = ess)
    (hclash : ¬ix.Clash (policy r) external) :
    (∃ snapshot page', carryOut read r = .ok ⟨0, snapshot, page'⟩ ∧
      snapshot.isSome = r.wantsSnapshot ∧ page'.isSome = r.wantsPage) ∨
    (carryOut read r = .error (.build .listing) ∧
      ∃ es ∈ ess, ∃ o, .operation o ∈ es ∧ ¬o.Textual) ∨
    (carryOut read r = .error .unstorable ∧ r.wantsSnapshot = true ∧
      (Snapshot.ofIndex ix).toJson.store? .indented = none) := by
  obtain ⟨hc, hf, hadditions, -⟩ := firstPass_ok hfirst
  obtain ⟨merged, hmerged, hcm, hes⟩ :=
    mergedIndex_ok (o := ⟨r.scope, external, policy r⟩) ⟨hc, hf⟩ hsealed hclash
  have htextual : ∀ o, .operation o ∈ ix.entries → o.Textual := by
    rw [hadditions]
    exact Survey.textual_ofRoot r.scope page
  by_cases hw : ∀ l ∈ (Survey.ofRoot r.scope page).2.listings, l.isWritable merged = true
  · obtain ⟨b, hb, -, hindex, -⟩ := exists_run_of_isWritable hfirst hmerged hw
    rw [carryOut_of_built ho hpage hb]
    refine (answer_cases r b).imp_right fun ⟨hanswer, hwants, hstore⟩ => .inr ⟨hanswer, hwants, ?_⟩
    rwa [hindex, Snapshot.store?, if_pos (hasTextIds_of_textual htextual)] at hstore
  · obtain ⟨a, ha, hfault⟩ := run_of_not_isWritable hfirst hmerged hw
    have hrun := carryOut_of_not_isStatus ho hpage ha (by rw [hfault]; rfl)
    rw [hfault] at hrun
    refine .inr (.inl ⟨hrun, ?_⟩)
    -- a method that cannot be listed is no text somewhere, so an import has it
    by_contra himports
    push Not at himports
    refine hw fun l _ => l.isWritable_of_textual hcm fun o ho => ?_
    rw [hes] at ho
    rcases List.mem_append.1 ho with ho | ho
    · exact htextual o ho
    · obtain ⟨x, hx, ho⟩ := List.mem_flatMap.1 ho
      exact himports _ (hentries ▸ List.mem_map_of_mem hx) o (List.mem_filter.1 ho).1

end Finished

/-- **How the command ends.** Let the namespace of a request not be empty and its imports be the
written forms of entries, and let its page be read by some reader that gives new nodes. If the
entries of some import make no index, the command fails. Otherwise it fails if the reader has
nothing to give for the page, and if the page has been read, its exit status is 1, with nothing
written, where an id is there twice. Where none is, the command writes what was asked for with the
exit status 0, or it fails: a clause in a heading or in a row has led to one that is refused a
number, a listing has come upon an imported method that is no text somewhere, or the index of the
page nests too deep or counts too far to be stored. -/
theorem carryOut_status {read : Markup.Reader} (hread : read.Fresh) (r : Request)
    (hscope : r.scope ≠ "") {ess : List (List Entry)}
    (himports : List.Forall₂ (fun i es => Snapshot.entries? i.2 = some es) r.imports ess) :
    ((∃ es ∈ ess, ¬Index.Consistent es) →
      ∃ f, carryOut read r = .error (.snapshot (.index f))) ∧
    ((∀ es ∈ ess, Index.Consistent es) →
      (∀ e, read (unixLines r.page.toList) = .error e → e.isFinal = true →
        carryOut read r = .error (.markup e)) ∧
      ∀ page, document read r = .ok page →
        (IdTwice r page ess → carryOut read r = .ok ⟨1, none, none⟩) ∧
        (¬IdTwice r page ess →
          (∃ snapshot page', carryOut read r = .ok ⟨0, snapshot, page'⟩ ∧
            snapshot.isSome = r.wantsSnapshot ∧ page'.isSome = r.wantsPage) ∨
          (∃ f, carryOut read r = .error (.build f) ∧ Registry.IsRefusal f ∧
            page.HasBuriedClause) ∨
          (carryOut read r = .error (.build .listing) ∧
            ∃ es ∈ ess, ∃ o, .operation o ∈ es ∧ ¬o.Textual) ∨
          (carryOut read r = .error .unstorable ∧ r.wantsSnapshot = true ∧ ∃ ix : Index,
            ix.entries = Action.declared (Survey.ofRoot r.scope page).2.actions ∧
            (Snapshot.ofIndex ix).toJson.store? .indented = none))) := by
  refine ⟨fun hess => ?_, fun hess => ?_⟩
  · obtain ⟨f, hf⟩ := options_error himports hess
    exact ⟨f, bind_error_iff.2 (.inl hf)⟩
  obtain ⟨external, ho, hsealed, hentries⟩ := options_ok himports hscope hess
  refine ⟨fun e he _ => carryOut_of_refused ho he, fun page hpage => ?_⟩
  rcases firstPass_declared r.scope page with
    ⟨hnot, a, hfirst, hfault⟩ | ⟨hap, hany, a, hfirst, hfault⟩ | ⟨hap, hany, ix, ds, hfirst⟩
  · have hrun := carryOut_of_isTakenId ho hpage (run_of_firstPass_error hfirst) hfault
    exact ⟨fun _ => hrun, fun htwice => absurd (.inl hnot) htwice⟩
  · refine ⟨fun htwice => ?_, fun _ => .inr (.inl ⟨a.fault, ?_, hfault, ?_⟩)⟩
    · rcases htwice with hnot | ⟨hnone, -⟩
      · exact absurd hap hnot
      · rw [hany] at hnone
        cases hnone
    · obtain ⟨depth, deepest, hf⟩ := hfault
      exact carryOut_of_not_isStatus ho hpage (run_of_firstPass_error hfirst) (by rw [hf]; rfl)
    · exact hasBuriedClause_of_isRefusal (asRead_of_document hread hpage) hfirst hfault
  · have hclash := idTwice_iff_clash hsealed hentries hfirst hap hany
    refine ⟨fun htwice => carryOut_of_clash hpage ho hsealed hfirst (hclash.1 htwice),
      fun htwice => ?_⟩
    have hdeclared := entries_of_firstPass hfirst hany
    rcases carryOut_of_not_clash hpage ho hsealed hfirst hentries fun h => htwice (hclash.2 h) with
      hdone | hlisting | ⟨hstore, hwants, hnone⟩
    · exact .inl hdone
    · exact .inr (.inr (.inl hlisting))
    · exact .inr (.inr (.inr ⟨hstore, hwants, ix, hdeclared, hnone⟩))

/-- A clause in a snapshot. -/
def clauseRow : String :=
  "\x7b\x22type\x22:\x22clause\x22,\x22id\x22:\x22a\x22,\x22namespace\x22:\x22n\x22\x7d"

/-- The text of a snapshot with the clause. -/
def clauseText : String := "\x7b\x22entries\x22:[" ++ clauseRow ++ "]\x7d"

/-- A page with a clause that imports another one. -/
def importing : Request where
  page := "<emu-clause id=\x22c\x22></emu-clause>"
  scope := "ns"
  imports := [("a.json", clauseText)]
  supplementary := false
  wantsSnapshot := false
  wantsPage := true

/-- The page of `importing`. -/
def clausePage : Node := (Node.document [.new "emu-clause" [("id", "c")] []]).withKeys

theorem exists_entries?_clauseText : ∃ e, Snapshot.entries? clauseText = some [e] ∧
    e.operation? = none ∧ e.id = .string "a" ∧ e.refId.isSet = false := by
  have hsummary : (Snapshot.entries? clauseText).map
      (·.map fun e => (e.operation?.isNone, e.id.key?, e.refId.isSet)) =
        some [(true, some (.text "a"), false)] := by decide +kernel
  obtain ⟨es, hes, hmap⟩ := Option.map_eq_some_iff.1 hsummary
  obtain ⟨e, rfl, he⟩ := List.map_eq_singleton_iff.1 hmap
  simp only [Prod.mk.injEq, Option.isNone_iff_eq_none, Json.key?_eq_text_iff] at he
  exact ⟨e, hes, he⟩

/-- The page is written with the exit status 0. -/
theorem carryOut_status_importing : Markup.Reader.Fresh Markup.parse? ∧ importing.scope ≠ "" ∧
    document Markup.parse? importing = .ok clausePage ∧
    ∃ e page', Snapshot.entries? clauseText = some [e] ∧
      run importing = .ok ⟨0, none, page'⟩ ∧ page'.isSome = true := by
  have hscope : importing.scope ≠ "" := by decide
  have hpage : document Markup.parse? importing = .ok clausePage := rfl
  obtain ⟨e, hes, hoperation, hid, href⟩ := exists_entries?_clauseText
  have hconsistent : ∀ es ∈ [[e]], Index.Consistent es := by
    simp only [List.mem_singleton, forall_eq]
    refine ⟨?_, List.pairwise_singleton _ _, ?_⟩
    · simpa using Entry.insertable_of_ofOption (some "a") hid (.inl (by rw [hid]; rfl))
    · simp [Index.Closed, href]
  have hdeclared : (Action.declared (Survey.ofRoot "ns" clausePage).2.actions).map (·.id.key?) =
      [some (.text "c")] := by decide +kernel
  obtain ⟨d, hd, hkey⟩ := List.map_eq_singleton_iff.1 hdeclared
  have hunique : ¬IdTwice importing clausePage [[e]] := by
    have hap : d.Apart e := fun _ _ heq => by
      rw [hkey, hid] at heq
      exact absurd heq (by decide)
    unfold IdTwice
    rw [show importing.scope = "ns" from rfl, hd]
    simp [hap]
  have himports : List.Forall₂ (fun i es => Snapshot.entries? i.2 = some es) importing.imports
      [[e]] := .cons hes .nil
  obtain ⟨-, hrun⟩ := carryOut_status Markup.fresh_parse? importing hscope himports
  rcases ((hrun hconsistent).2 clausePage hpage).2 hunique with
    ⟨snapshot, page', hok, hsnapshot, hpage'⟩ | ⟨f, -, -, hburied⟩ | ⟨-, es, hmem, o, ho, -⟩ |
      ⟨-, hwants, -⟩
  · obtain rfl : snapshot = none := by simpa [importing] using hsnapshot
    exact ⟨Markup.fresh_parse?, hscope, hpage, e, page', hes, hok, hpage'⟩
  · exact absurd hburied (by decide +kernel)
  · rw [List.mem_singleton.1 hmem, List.mem_singleton] at ho
    rw [← ho] at hoperation
    cases hoperation
  · cases hwants

/-- The text of a snapshot with the clause twice. -/
def twinText : String := "\x7b\x22entries\x22:[" ++ clauseRow ++ "," ++ clauseRow ++ "]\x7d"

/-- An empty page that imports the clause twice in one snapshot. -/
def importingTwins : Request where
  page := ""
  scope := "ns"
  imports := [("a.json", twinText)]
  supplementary := false
  wantsSnapshot := true
  wantsPage := true

/-- An id that is twice in one import does not give the exit status 1: the command fails. -/
theorem run_twinImport : importingTwins.scope ≠ "" ∧
    document Markup.parse? importingTwins = .ok (Node.document []).withKeys ∧
    (∃ es, Snapshot.entries? twinText = some es) ∧
    ∃ id, run importingTwins = .error (.snapshot (.index (.duplicateId id))) := by
  have hkeys : (Snapshot.entries? twinText).map (·.map (·.id.key?)) =
      some [some (.text "a"), some (.text "a")] := by decide +kernel
  obtain ⟨es, hes, hmap⟩ := Option.map_eq_some_iff.1 hkeys
  obtain ⟨e, rest, rfl, he, hrest⟩ := List.map_eq_cons_iff.1 hmap
  obtain ⟨e', rfl, he'⟩ := List.map_eq_singleton_iff.1 hrest
  rw [Json.key?_eq_text_iff] at he he'
  have hset : e.id.isSet = true := by rw [he]; rfl
  have hset' : e'.id.isSet = true := by rw [he']; rfl
  have hinsertable : ∀ e'' ∈ [e, e'], e''.Insertable := by
    simp only [List.forall_mem_cons]
    exact ⟨Entry.insertable_of_ofOption (some "a") he (.inl hset),
      Entry.insertable_of_ofOption (some "a") he' (.inl hset'), by simp⟩
  have hnot : ¬[e, e'].Pairwise Entry.Apart := fun h =>
    List.pairwise_pair.1 h hset hset' (by rw [he, he'])
  obtain ⟨id, hid⟩ := Index.open_empty.insertAll_error hinsertable hnot
  refine ⟨by decide, rfl, ⟨_, hes⟩, id, bind_error_iff.2 (.inl (bind_error_iff.2 (.inl ?_)))⟩
  rw [importingTwins, List.mapM_cons, Snapshot.load_of_entries? hes]
  simp only [hid, bind, Except.bind, Except.mapError]

end Command

end Concordance
