import Concordance.Proofs.Entry.Types

/-!
# Entries in stored form

A valid entry is read back from its stored form (`Entry.ofJson_toJson`), and only valid entries are
read (`Entry.valid_of_ofJson`). The loosely typed fields hold any values, so an entry whose stored
form has been written to a file comes back with the members of these values in another order. What
then stays the same is `Entry.sorted`, and with it all that an index asks of an entry.
-/

namespace Concordance

open Json (member? Carries Same)

/-! ## Entries up to the order of members -/

/-- The operation with the members of all values in order. -/
def OperationEntry.sorted (o : OperationEntry) : OperationEntry :=
  { o with
    effects := o.effects.map Json.sorted
    id := o.id.sorted
    refId := o.refId.sorted
    forType := o.forType.sorted }

namespace Entry

/-- The entry with the members of all values in order. -/
def sorted : Entry → Entry
  | .clause c => .clause { c with parent := c.parent.sorted, refId := c.refId.sorted }
  | .table t => .table { t with refId := t.refId.sorted }
  | .operation o => .operation o.sorted

@[simp] theorem id_sorted (e : Entry) : e.sorted.id = e.id.sorted := by cases e <;> rfl

@[simp] theorem refId_sorted (e : Entry) : e.sorted.refId = e.refId.sorted := by cases e <;> rfl

@[simp] theorem operation?_sorted (e : Entry) :
    e.sorted.operation? = e.operation?.map OperationEntry.sorted := by cases e <;> rfl

/-! ## What each kind of entry is read from -/

section Kinds

variable {ms : List (String × Json)}

theorem ofJson_clause {c : ClauseEntry} (ht : member? ms "type" = some (.string "clause"))
    (hid : member? ms "id" = some (.string c.id))
    (hnumber : member? ms "number" = some (.string c.number))
    (htitle : member? ms "title" = some (.string c.title))
    (hscope : member? ms "namespace" = some (.string c.scope))
    (hparent : member? ms "parent" = some c.parent) (href : member? ms "refId" = some c.refId) :
    ofJson (.object ms) = .ok (.clause c) := by
  simp [ofJson, readClause, Json.members, Json.optional, Json.required, textOr, Json.asText, ht,
    hid, hnumber, htitle, hscope, hparent, href, bind, Except.bind, pure, Except.pure]

theorem make?_of_valid {t : TableEntry} (hv : (Entry.table t).Valid) :
    TableEntry.make? t.id t.number t.caption t.scope t.refId = .ok t := by
  obtain ⟨hid, hnumber⟩ := hv
  rw [TableEntry.make?, if_neg hid, if_neg (by omega)]
  rfl

theorem ofJson_table {t : TableEntry} (hv : (Entry.table t).Valid)
    (ht : member? ms "type" = some (.string "table"))
    (hid : member? ms "id" = some (.string t.id))
    (hnumber : member? ms "number" = some (.int t.number))
    (hcaption : member? ms "caption" = some (.string t.caption))
    (hscope : member? ms "namespace" = some (.string t.scope))
    (href : member? ms "refId" = some t.refId) : ofJson (.object ms) = .ok (.table t) := by
  simp [ofJson, readTable, Json.members, Json.optional, Json.required, textOr, Json.asText,
    Json.integer, ht, hid, hnumber, hcaption, hscope, href, make?_of_valid hv, bind, Except.bind,
    pure, Except.pure]

theorem ofJson_operation {o : OperationEntry} {v : Json}
    (ht : member? ms "type" = some (.string "op"))
    (haoid : member? ms "aoid" = some (.string o.aoid))
    (hkind : member? ms "kind" = some (.string o.kind))
    (hscope : member? ms "namespace" = some (.string o.scope))
    (hsig : member? ms "signature" = some v) (hv : Signature.ofOptional v = .ok o.signature)
    (heffects : member? ms "effects" = some (.array o.effects))
    (hid : member? ms "id" = some o.id) (href : member? ms "refId" = some o.refId)
    (hfor : member? ms "for" = some o.forType) : ofJson (.object ms) = .ok (.operation o) := by
  simp [ofJson, readOperation, Json.members, Json.optional, Json.required, Json.items,
    Json.asText, ht, haoid, hkind, hscope, hsig, hv, heffects, hid, href, hfor, bind, Except.bind,
    pure, Except.pure]

end Kinds

/-! ## Reading back -/

/-- A valid entry is read back from its stored form. -/
theorem ofJson_toJson {e : Entry} (hv : e.Valid) : ofJson e.toJson = .ok e := by
  cases e with
  | clause c => exact ofJson_clause rfl rfl rfl rfl rfl rfl rfl
  | table t => exact ofJson_table hv rfl rfl rfl rfl rfl rfl
  | operation o =>
    have hsig := Signature.ofOptional_of_same hv (Same.refl (optionalSignature o.signature))
    exact ofJson_operation rfl rfl rfl rfl rfl hsig rfl rfl rfl rfl

theorem map_sorted_of_same {vs ws : List Json} (h : List.Forall₂ Same vs ws) :
    vs.map Json.sorted = ws.map Json.sorted := by
  induction h with
  | nil => rfl
  | cons hv _ ih => rw [List.map_cons, List.map_cons, hv, ih]

/-- Whatever the order of the members, the entry that is read is that of the stored form up to the
order of the members in its values. -/
theorem ofJson_of_same {e : Entry} (hv : e.Valid) {v : Json} (h : v.Same e.toJson) :
    ∃ e', ofJson v = .ok e' ∧ e'.sorted = e.sorted := by
  cases e with
  | clause c =>
    obtain ⟨ms, rfl, hc⟩ := h.object (by simp)
    obtain ⟨parent, hparent, hps⟩ := hc "parent" _ rfl
    obtain ⟨refId, href, hrs⟩ := hc "refId" _ rfl
    refine ⟨.clause { c with parent, refId }, ?_, ?_⟩
    · exact ofJson_clause (hc.string rfl) (hc.string rfl) (hc.string rfl) (hc.string rfl)
        (hc.string rfl) hparent href
    · simp only [sorted]
      rw [hps, hrs]
  | table t =>
    obtain ⟨ms, rfl, hc⟩ := h.object (by simp)
    obtain ⟨refId, href, hrs⟩ := hc "refId" _ rfl
    refine ⟨.table { t with refId }, ?_, ?_⟩
    · exact ofJson_table hv (hc.string rfl) (hc.string rfl) (hc.int rfl) (hc.string rfl)
        (hc.string rfl) href
    · simp only [sorted]
      rw [hrs]
  | operation o =>
    obtain ⟨ms, rfl, hc⟩ := h.object (by simp)
    obtain ⟨sig, hsig, hss⟩ := hc "signature" _ rfl
    obtain ⟨effects, heffects, hes⟩ := hc.array (k := "effects") rfl
    obtain ⟨id, hid, his⟩ := hc "id" _ rfl
    obtain ⟨refId, href, hrs⟩ := hc "refId" _ rfl
    obtain ⟨forType, hfor, hfs⟩ := hc "for" _ rfl
    refine ⟨.operation { o with effects, id, refId, forType }, ?_, ?_⟩
    · exact ofJson_operation (hc.string rfl) (hc.string rfl) (hc.string rfl) (hc.string rfl) hsig
        (Signature.ofOptional_of_same hv hss) heffects hid href hfor
    · simp only [sorted, OperationEntry.sorted]
      rw [map_sorted_of_same hes, his, hrs, hfs]

/-! ## Only valid entries are read -/

theorem valid_of_make? {id caption scope : String} {number : Int} {refId : Json} {t : TableEntry}
    (h : TableEntry.make? id number caption scope refId = .ok t) : (Entry.table t).Valid := by
  unfold TableEntry.make? at h
  split at h
  · cases h
  · next hid =>
    split at h
    · cases h
    · next hnumber =>
      obtain rfl := Except.ok.inj h
      exact ⟨hid, by dsimp only; omega⟩

theorem valid_of_ofJson {v : Json} {e : Entry} (h : ofJson v = .ok e) : e.Valid := by
  unfold ofJson at h
  obtain ⟨ms, -, h⟩ := bind_ok_iff.1 h
  split at h
  · obtain ⟨id, -, h⟩ := bind_ok_iff.1 h
    obtain ⟨scope, -, h⟩ := bind_ok_iff.1 h
    obtain rfl := Except.ok.inj h
    trivial
  · obtain ⟨id, -, h⟩ := bind_ok_iff.1 h
    obtain ⟨w, -, h⟩ := bind_ok_iff.1 h
    obtain ⟨number, -, h⟩ := bind_ok_iff.1 h
    obtain ⟨scope, -, h⟩ := bind_ok_iff.1 h
    obtain ⟨t, ht, h⟩ := bind_ok_iff.1 h
    obtain rfl := Except.ok.inj h
    exact valid_of_make? ht
  · obtain ⟨aoid, -, h⟩ := bind_ok_iff.1 h
    obtain ⟨kind, -, h⟩ := bind_ok_iff.1 h
    obtain ⟨scope, -, h⟩ := bind_ok_iff.1 h
    obtain ⟨signature, hsig, h⟩ := bind_ok_iff.1 h
    obtain ⟨effects, -, h⟩ := bind_ok_iff.1 h
    obtain rfl := Except.ok.inj h
    exact Signature.valid_of_ofOptional hsig
  · cases h

end Entry

end Concordance
