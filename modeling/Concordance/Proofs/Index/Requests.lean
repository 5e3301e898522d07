import Concordance.Proofs.Index.Imports

/-!
# Requests to one index

The owner of an index adds entries and then freezes it, and any of these requests may be refused. An
addition changes the list of entries and each view in turn, so on a shared index whatever was done
before a refusal would stay done; `Update` is a computation of this kind and `Request.carryOut` the
requests as such computations. Every check of a request comes before its first change
(`Request.on_carryOut`), so a refused request leaves the index as it was, and no request changes a
frozen index (`after_of_frozen`).

The main statement `serve_outcome` follows any sequence of requests on a new index, whatever becomes
of each. The index ends up as if nothing had been asked of it but what was granted.
-/

namespace Concordance.Index

/-! ## One request -/

/-- Changes of a shared index, any of which may be refused; what was done before stays done. -/
abbrev Update := ExceptT Fault (StateM Index)

namespace Update

variable {α : Type} {ix : Index}

/-- The outcome of changes and the index that they leave. -/
def on (u : Update α) (ix : Index) : Except Fault α × Index := u.run.run ix

@[simp] theorem on_get_bind (f : Index → Update α) : on (get >>= f) ix = (f ix).on ix := rfl

@[simp] theorem on_modify_bind (change : Index → Index) (f : Unit → Update α) :
    on (modify change >>= f) ix = (f ()).on (change ix) := rfl

@[simp] theorem on_modify (change : Index → Index) : on (modify change) ix = (.ok (), change ix) :=
  rfl

@[simp] theorem on_throw (f : Fault) : on (throw f : Update α) ix = (.error f, ix) := rfl

end Update

/-- Puts an entry in place: the checks, and then each view and the list of entries in turn. -/
def place (e : Entry) : Update Unit := do
  if !e.id.isSet && !e.refId.isSet then throw (.unreachable e)
  if e.id.isSet then
    match e.id.key? with
    | none => throw .unusableId
    | some k =>
      if k ∈ (← get).byKey then throw (.duplicateId e.id)
      modify fun ix => { ix with byKey := ix.byKey.insert k e }
  modify fun ix => { ix with entries := ix.entries ++ [e] }
  modify fun ix => { ix with firsts := withFirst ix.firsts e }
  modify fun ix => { ix with concretes := withConcrete ix.concretes e }

/-- Carries out a request on a shared index. -/
def Request.carryOut : Request → Update Unit
  | .add e => do
    if (← get).frozen then throw .frozen
    place e
  | .freeze => do
    match (← get).danglingRefs with
    | [] => modify fun ix => { ix with frozen := true }
    | refs =>
      match texts? refs with
      | some ids => throw (.dangling (sortedTexts ids))
      | none => throw .unusableId

/-- What a request comes to: the index after it, which a refused request leaves as it was. -/
def settled (ix : Index) : Except Fault Index → Except Fault Unit × Index
  | .ok ix' => (.ok (), ix')
  | .error f => (.error f, ix)

theorem on_place (e : Entry) (ix : Index) : (place e).on ix = ix.settled (ix.insert e) := by
  cases h : ix.insert e with
  | error f =>
    rcases insert_error_iff.1 h with ⟨hid, href, rfl⟩ | ⟨hid, hnone, rfl⟩ | ⟨k, hk, hmem, rfl⟩
    · simp [place, settled, hid, href]
    · simp [place, settled, hid, hnone]
    · obtain ⟨hid, hkey⟩ := Entry.hasKey_iff.1 hk
      simp [place, settled, hid, hkey, hmem]
  | ok ix' =>
    obtain ⟨hlinked, m, hm, rfl⟩ := insert_ok_iff.1 h
    rcases withKey_ok_iff.1 hm with ⟨hid, rfl⟩ | ⟨k, hk, hmem, rfl⟩
    · have href : e.refId.isSet = true := by simpa [hid] using hlinked
      simp [place, settled, hid, href]
    · obtain ⟨hid, hkey⟩ := Entry.hasKey_iff.1 hk
      simp [place, settled, hid, hkey, hmem]

/-- Every check of a request comes before its first change. -/
theorem Request.on_carryOut (r : Request) (ix : Index) :
    r.carryOut.on ix = ix.settled (ix.answer r) := by
  cases r with
  | add e =>
    cases hf : ix.frozen with
    | true => simp [carryOut, answer, settled, add_of_frozen, hf]
    | false => simp [carryOut, answer, add_of_open, hf, on_place]
  | freeze =>
    cases hd : ix.danglingRefs with
    | nil => simp [carryOut, answer, settled, Index.freeze, hd]
    | cons ref refs =>
      cases ht : texts? (ref :: refs) with
      | some ids => simp [carryOut, answer, settled, Index.freeze, hd, ht]
      | none => simp [carryOut, answer, settled, Index.freeze, hd, ht]

/-- What becomes of a request. -/
def outcome (ix : Index) (r : Request) : Except Fault Unit := (r.carryOut.on ix).1

theorem outcome_error_iff {ix : Index} {r : Request} {f : Fault} :
    ix.outcome r = .error f ↔ ix.answer r = .error f := by
  rw [outcome, Request.on_carryOut]
  cases ix.answer r <;> simp [settled]

/-! ## Why a request is refused -/

section Refused

variable {ix : Index} {e : Entry}

theorem add_unreachable_iff (hf : ix.frozen = false) (e' : Entry) :
    ix.add e = .error (.unreachable e') ↔
      e' = e ∧ e.id.isSet = false ∧ e.refId.isSet = false := by
  rw [add_of_open hf, insert_error_iff]
  grind

theorem add_duplicateId_iff (hc : ix.Coherent) (hf : ix.frozen = false) (id : Json) :
    ix.add e = .error (.duplicateId id) ↔
      id = e.id ∧ ∃ k, e.hasKey k = true ∧ ∃ e' ∈ ix.entries, e'.hasKey k = true := by
  have hmem : ∀ k, k ∈ ix.byKey ↔ ∃ e' ∈ ix.entries, e'.hasKey k = true := fun k => by
    rw [Std.HashMap.mem_iff_isSome_getElem?, Option.isSome_iff_exists]
    exact exists_congr fun _ => hc.byKey_eq_some_iff
  rw [add_of_open hf, insert_error_iff]
  simp only [hmem]
  grind

theorem freeze_error_iff (hc : ix.Coherent) :
    (∃ f, ix.freeze = .error f) ↔ ¬Closed ix.entries := by
  rw [← hc.danglingRefs_eq_nil_iff]
  cases h : ix.freeze with
  | ok ix' => simp [(freeze_ok_iff.1 h).1]
  | error f =>
    refine iff_of_true ⟨f, rfl⟩ fun hnil => ?_
    rw [freeze_ok_iff.2 ⟨hnil, rfl⟩] at h
    cases h

end Refused

/-! ## Any number of requests -/

/-- Requests with what became of each. -/
abbrev Log := List (Request × Except Fault Unit)

/-- Carries out requests one after another, whatever becomes of each. -/
def serve (ix : Index) : List Request → Log × Index
  | [] => ([], ix)
  | r :: rs =>
    let (o, ix') := r.carryOut.on ix
    let (log, last) := serve ix' rs
    ((r, o) :: log, last)

namespace Log

/-- The entries that were added, in order. -/
def added (log : Log) : List Entry :=
  log.filterMap fun
    | (.add e, .ok _) => some e
    | _ => none

/-- Whether the index was frozen. -/
def wasFrozen (log : Log) : Bool :=
  log.any fun
    | (.freeze, .ok _) => true
    | _ => false

/-- What was granted: the additions in order, and after them to freeze the index if it was. -/
def granted (log : Log) : List Request :=
  log.added.map .add ++ if log.wasFrozen then [.freeze] else []

variable {log : Log}

@[simp] theorem added_refused (r : Request) (f : Fault) :
    added ((r, .error f) :: log) = log.added := by
  cases r <;> rfl

@[simp] theorem added_add (e : Entry) : added ((.add e, .ok ()) :: log) = e :: log.added := rfl

@[simp] theorem added_freeze : added ((.freeze, .ok ()) :: log) = log.added := rfl

@[simp] theorem wasFrozen_refused (r : Request) (f : Fault) :
    wasFrozen ((r, .error f) :: log) = log.wasFrozen := by
  cases r <;> rfl

@[simp] theorem wasFrozen_add (e : Entry) : wasFrozen ((.add e, .ok ()) :: log) = log.wasFrozen :=
  rfl

@[simp] theorem wasFrozen_freeze : wasFrozen ((.freeze, .ok ()) :: log) = true := rfl

end Log

section Serve

variable {ix : Index} {r : Request} {rs : List Request}

@[simp] theorem serve_nil : ix.serve [] = ([], ix) := rfl

theorem serve_cons : ix.serve (r :: rs) =
    ((r, ix.outcome r) :: ((ix.after r).serve rs).1, ((ix.after r).serve rs).2) := by
  have hon : r.carryOut.on ix = (ix.outcome r, ix.after r) := by
    rw [outcome, Request.on_carryOut, after]
    cases ix.answer r <;> rfl
  rw [serve, hon]

/-- All that a request can come to. -/
theorem request_cases (ix : Index) (r : Request) :
    (∃ f, ix.outcome r = .error f ∧ ix.after r = ix) ∨
    (∃ e ix', r = .add e ∧ ix.add e = .ok ix' ∧ ix.outcome r = .ok () ∧ ix.after r = ix') ∨
    (r = .freeze ∧ ix.outcome r = .ok () ∧ ix.after r = { ix with frozen := true }) := by
  cases h : ix.answer r with
  | error f => exact .inl ⟨f, outcome_error_iff.2 h, by rw [after, h]⟩
  | ok ix' =>
    have ho : ix.outcome r = .ok () := by rw [outcome, Request.on_carryOut, h]; rfl
    have ha : ix.after r = ix' := by rw [after, h]
    cases r with
    | add e => exact .inr (.inl ⟨e, ix', rfl, h, ho, ha⟩)
    | freeze =>
      obtain ⟨-, rfl⟩ := freeze_ok_iff.1 h
      exact .inr (.inr ⟨rfl, ho, ha⟩)

/-- No request changes a frozen index. -/
theorem after_of_frozen (hf : ix.frozen = true) (r : Request) : ix.after r = ix := by
  obtain ⟨f, -, ha⟩ | ⟨e, ix', rfl, hadd, -, -⟩ | ⟨rfl, -, ha⟩ := request_cases ix r
  · exact ha
  · rw [add_of_frozen hf] at hadd
    cases hadd
  · rw [ha, ← hf]

theorem requests_serve : (ix.serve rs).1.map Prod.fst = rs := by
  induction rs generalizing ix with
  | nil => rfl
  | cons r rs ih => rw [serve_cons, List.map_cons, ih]

theorem index_serve : (ix.serve rs).2 = rs.foldl after ix := by
  induction rs generalizing ix with
  | nil => rfl
  | cons r rs ih => rw [serve_cons, ih, List.foldl_cons]

theorem serve_concat (r : Request) : ix.serve (rs ++ [r]) =
    ((ix.serve rs).1 ++ [(r, (ix.serve rs).2.outcome r)], (ix.serve rs).2.after r) := by
  induction rs generalizing ix with
  | nil => rw [List.nil_append, serve_cons]; rfl
  | cons r' rs ih => rw [List.cons_append, serve_cons, ih, serve_cons]; rfl

theorem entries_serve : (ix.serve rs).2.entries = ix.entries ++ (ix.serve rs).1.added := by
  induction rs generalizing ix with
  | nil => exact (List.append_nil _).symm
  | cons r rs ih =>
    rw [serve_cons]
    obtain ⟨f, ho, ha⟩ | ⟨e, ix', rfl, hadd, ho, ha⟩ | ⟨rfl, ho, ha⟩ := request_cases ix r
    · simp [ho, ha, ih]
    · simp [ho, ha, ih, entries_of_insert (add_ok_iff.1 hadd).2]
    · simp [ho, ha, ih]

theorem frozen_serve : (ix.serve rs).2.frozen = (ix.frozen || (ix.serve rs).1.wasFrozen) := by
  induction rs generalizing ix with
  | nil => simp [Log.wasFrozen]
  | cons r rs ih =>
    rw [serve_cons]
    obtain ⟨f, ho, ha⟩ | ⟨e, ix', rfl, hadd, ho, ha⟩ | ⟨rfl, ho, ha⟩ := request_cases ix r
    · simp [ho, ha, ih]
    · simp [ho, ha, ih, frozen_of_insert (add_ok_iff.1 hadd).2]
    · simp [ho, ha, ih]

/-- Nothing is added to a frozen index. -/
theorem serve_of_frozen (hf : ix.frozen = true) :
    (ix.serve rs).1.added = [] ∧ (ix.serve rs).2 = ix := by
  have hsame : (ix.serve rs).2 = ix := by
    induction rs with
    | nil => rfl
    | cons r rs ih => rw [serve_cons, after_of_frozen hf, ih]
  have hentries : ix.entries = ix.entries ++ (ix.serve rs).1.added := by
    rw [← entries_serve, hsame]
  exact ⟨List.self_eq_append_right.1 hentries, hsame⟩

/-- What was granted is granted again when nothing else is asked for, with the same index. -/
theorem serve_granted : ix.serve (ix.serve rs).1.granted =
    ((ix.serve rs).1.granted.map fun r => (r, .ok ()), (ix.serve rs).2) := by
  induction rs generalizing ix with
  | nil => rfl
  | cons r rs ih =>
    rw [serve_cons]
    obtain ⟨f, ho, ha⟩ | ⟨e, ix', rfl, hadd, ho, ha⟩ | ⟨rfl, ho, ha⟩ := request_cases ix r
    · -- the log of a refused request has the same granted requests
      have hgranted : Log.granted ((r, .error f) :: (ix.serve rs).1) = (ix.serve rs).1.granted := by
        simp [Log.granted]
      rw [ho, ha, hgranted, ih]
    · have hgranted : Log.granted ((.add e, .ok ()) :: (ix'.serve rs).1) =
          .add e :: (ix'.serve rs).1.granted := rfl
      rw [ho, ha, hgranted, serve_cons, ho, ha, ih]
      rfl
    · -- after the first freezing nothing more is granted but to freeze again
      obtain ⟨hadded, hsame⟩ : (serve { ix with frozen := true } rs).1.added = [] ∧
          (serve { ix with frozen := true } rs).2 = { ix with frozen := true } :=
        serve_of_frozen rfl
      have hgranted : Log.granted ((.freeze, .ok ()) ::
          (serve { ix with frozen := true } rs).1) = [.freeze] := by simp [Log.granted, hadded]
      rw [ho, ha, hgranted, hsame, serve_cons, ho, ha]
      rfl

end Serve

/-- The views of the index of a session are functions of its entries. -/
theorem coherent_serve (rs : List Request) : (empty.serve rs).2.Coherent := by
  rw [index_serve]
  exact List.foldlRecOn rs after coherent_empty fun _ hc r _ => hereditary_coherent.after hc r

/-- **Refused requests leave no trace, and freezing is final.** Whatever is asked of a new index and
whatever becomes of it, the index holds the entries whose addition was granted, in order, and it is
the very index that a new one becomes if only these are added and, if the index was frozen, it is
frozen after them; nothing of this is refused. After any requests the next one is answered as
follows. Once the index was frozen, every addition is refused for that. Before, an entry is refused
as unreachable exactly where neither its id nor its reference is set, and for a duplicate id exactly
where some entry of the index answers to the key of its id. Freezing is refused exactly where some
reference leads to no entry. -/
theorem serve_outcome (rs : List Request) :
    let log := (empty.serve rs).1
    let ix := (empty.serve rs).2
    log.map Prod.fst = rs ∧ ix.entries = log.added ∧
    empty.serve log.granted = (log.granted.map fun r => (r, .ok ()), ix) ∧
    (∀ r, empty.serve (rs ++ [r]) = (log ++ [(r, ix.outcome r)], ix.after r)) ∧
    (log.wasFrozen = true → ∀ e, ix.outcome (.add e) = .error .frozen) ∧
    (log.wasFrozen = false → ∀ e,
      (∀ e', ix.outcome (.add e) = .error (.unreachable e') ↔
        e' = e ∧ e.id.isSet = false ∧ e.refId.isSet = false) ∧
      (∀ id, ix.outcome (.add e) = .error (.duplicateId id) ↔
        id = e.id ∧ ∃ k, e.hasKey k = true ∧ ∃ e' ∈ ix.entries, e'.hasKey k = true)) ∧
    ((∃ f, ix.outcome .freeze = .error f) ↔ ¬Closed ix.entries) := by
  intro log ix
  have hc : ix.Coherent := coherent_serve rs
  have hfrozen : ix.frozen = log.wasFrozen := frozen_serve
  refine ⟨requests_serve, entries_serve, serve_granted, serve_concat, fun hf e => ?_,
    fun hf e => ⟨fun e' => ?_, fun id => ?_⟩, ?_⟩
  · exact outcome_error_iff.2 (add_of_frozen (hfrozen.trans hf) e)
  · exact outcome_error_iff.trans (add_unreachable_iff (hfrozen.trans hf) e')
  · exact outcome_error_iff.trans (add_duplicateId_iff hc (hfrozen.trans hf) id)
  · exact (exists_congr fun _ => outcome_error_iff).trans (freeze_error_iff hc)

/-- A method without a reference. -/
def strayMethod : Entry := .operation ⟨"F", concreteMethod, "ns", none, [], .null, .null, .null⟩

/-- The entries of `pair`, the method first: the index cannot be frozen before the clause is there,
and the clause cannot be added twice. -/
def stubborn : List Request :=
  (pairEntries.drop 1).map .add ++ [.freeze] ++ (pairEntries.take 1).map .add ++
    (pairEntries.take 1).map .add ++ [.add strayMethod, .freeze, .add strayMethod, .freeze]

/-- What becomes of these requests. -/
def stubbornOutcomes : List (Except Fault Unit) :=
  [.ok (), .error (.dangling ["sec-a"]), .ok (), .error (.duplicateId (.string "sec-a")),
    .error (.unreachable strayMethod), .ok (), .error .frozen, .ok ()]

theorem log_stubborn : (empty.serve stubborn).1 = stubborn.zip stubbornOutcomes := by
  simp [stubborn, stubbornOutcomes, strayMethod, pairEntries, serve_cons, serve_nil,
    outcome, Request.on_carryOut, settled, after, answer, Index.add, insert, withKey, Entry.id,
    Entry.refId, Json.isSet, Json.key?, empty, bind, Except.bind, pure, Except.pure, freeze,
    danglingRefs, isDangling, find?, texts?, sortedTexts]
  rfl

theorem serve_outcome_stubborn :
    (empty.serve stubborn).2.entries = pairEntries.reverse ∧
    empty.serve (pairEntries.reverse.map .add ++ [.freeze]) =
      ((pairEntries.reverse.map Request.add ++ [Request.freeze]).map fun r => (r, .ok ()),
        (empty.serve stubborn).2) ∧
    ∀ e, (empty.serve stubborn).2.outcome (.add e) = .error .frozen := by
  obtain ⟨-, hentries, hgranted, -, hfrozen, -⟩ := serve_outcome stubborn
  rw [log_stubborn] at hentries hgranted hfrozen
  exact ⟨hentries, hgranted, hfrozen rfl⟩

end Concordance.Index
