import Concordance.Entry.Decode
import Concordance.Entry.Encode
import Concordance.Proofs.Json.Order
import Concordance.Proofs.Outcome
import Concordance.Proofs.TypePhrase.Valid

/-!
# Types and signatures in stored form

A valid type is read back from its stored form, and so is a valid signature, whatever the order of
the members. The reader of types descends on a bound that is at least the height of the value, and
the stored form of a part is less high than that of the whole. Conversely the checked constructors
let nothing pass but what is valid: `TypePhrase.valid_of_read`, `Signature.valid_of_ofJson`.
-/

namespace Concordance

open Json (member? Carries Same)

namespace TypePhrase

/-! ## What each kind of type is read from -/

section Kinds

variable {ms : List (String × Json)} {bound : Nat}

theorem read_named {name : String} (hk : member? ms "kind" = some (.string "named"))
    (hn : member? ms "name" = some (.string name)) (hv : Text.allBlank name.toList = false) :
    read (bound + 1) (.object ms) = .ok (.named name) := by
  simp [read, Json.members, Json.optional, Json.required, hk, hn, Json.asText, named?, hv, bind,
    Except.bind, Except.mapError]

theorem read_list {v : Json} {t : TypePhrase} (hk : member? ms "kind" = some (.string "list"))
    (he : member? ms "element" = some v) (hv : read bound v = .ok t) :
    read (bound + 1) (.object ms) = .ok (.list t) := by
  simp [read, Json.members, Json.optional, Json.required, hk, he, hv, bind, Except.bind, pure,
    Except.pure]

/-- A field in stored form. -/
def readField (bound : Nat) (field : Json) : Except Malformed (String × TypePhrase) := do
  let (name, t) ← field.pair
  return (name.asText, ← read bound t)

theorem read_record {vs : List Json} {fields : List (String × TypePhrase)}
    (hk : member? ms "kind" = some (.string "record"))
    (hf : member? ms "fields" = some (.array vs))
    (hvs : List.Forall₂ (fun v f => readField bound v = .ok f) vs fields)
    (hd : (fields.map (·.1)).Nodup) : read (bound + 1) (.object ms) = .ok (.record fields) := by
  have hmap : vs.mapM (readField bound) = .ok fields := mapM_ok_iff.2 hvs
  simp only [read, Json.members, Json.optional, Json.required, hk, hf, Json.items, bind,
    Except.bind, Option.getD_some]
  exact bind_ok_iff.2 ⟨fields, hmap, by rw [record?, if_pos hd]; rfl⟩

theorem read_union {vs : List Json} {ts : List TypePhrase}
    (hk : member? ms "kind" = some (.string "union"))
    (ha : member? ms "alternatives" = some (.array vs))
    (hvs : List.Forall₂ (fun v t => read bound v = .ok t) vs ts) (hlen : 2 ≤ ts.length)
    (hflat : ts.any isUnion = false) : read (bound + 1) (.object ms) = .ok (.union ts) := by
  have hmap : vs.mapM (read bound) = .ok ts := mapM_ok_iff.2 hvs
  simp only [read, Json.members, Json.optional, Json.required, hk, ha, Json.items, bind,
    Except.bind, Option.getD_some]
  refine bind_ok_iff.2 ⟨ts, hmap, ?_⟩
  rw [union?, if_neg (by omega), if_neg (by simp [hflat])]
  rfl

theorem readField_ok {v : Json} {name : String} {w : Json} {t : TypePhrase}
    (h : v.Same (.array [.string name, w])) (hw : ∀ w', Same w' w → read bound w' = .ok t) :
    readField bound v = .ok (name, t) := by
  obtain ⟨vs, rfl, hvs⟩ := h.array
  obtain ⟨n, us, hn, hus, rfl⟩ := List.forall₂_cons_right_iff.1 hvs
  obtain ⟨w', ws, hw', hws, rfl⟩ := List.forall₂_cons_right_iff.1 hus
  obtain rfl := List.forall₂_nil_right_iff.1 hws
  rw [Json.same_string_iff.1 hn]
  simp [readField, Json.pair, Json.items, hw w' hw', Json.asText, bind, Except.bind, pure,
    Except.pure]

end Kinds

/-! ## Reading back -/

section Heights

variable (t : TypePhrase) (fields : List (String × TypePhrase)) (ts : List TypePhrase)

theorem height_named (name : String) : (named name).toJson.height = 1 := rfl

theorem height_list : (list t).toJson.height = t.toJson.height + 1 := by
  simp [toJson, Json.height, Json.heightMembers]

theorem height_record :
    (record fields).toJson.height = Json.heightAll (fieldsToJson fields) + 2 := by
  simp [toJson, Json.height, Json.heightMembers]

theorem height_union : (union ts).toJson.height = Json.heightAll (allToJson ts) + 2 := by
  simp [toJson, Json.height, Json.heightMembers]

end Heights

mutual

/-- A valid type is read back from its stored form, whatever the order of the members. -/
theorem read_of_same (t : TypePhrase) (hv : t.Valid) {v : Json} (h : v.Same t.toJson) {bound : Nat}
    (hb : t.toJson.height ≤ bound) : read bound v = .ok t := by
  match t, bound with
  | .named name, 0 =>
    rw [height_named] at hb
    omega
  | .named name, bound + 1 =>
    obtain ⟨ms, rfl, hc⟩ := h.object (by simp)
    exact read_named (hc.string rfl) (hc.string rfl) hv
  | .list element, 0 =>
    rw [height_list] at hb
    omega
  | .list element, bound + 1 =>
    rw [height_list] at hb
    obtain ⟨ms, rfl, hc⟩ := h.object (by simp)
    obtain ⟨w, hw, hs⟩ := hc "element" _ rfl
    exact read_list (hc.string rfl) hw (read_of_same element hv hs (by omega))
  | .record fields, 0 =>
    rw [height_record] at hb
    omega
  | .record fields, bound + 1 =>
    rw [height_record] at hb
    obtain ⟨ms, rfl, hc⟩ := h.object (by simp)
    obtain ⟨vs, hvs, hs⟩ := hc.array (k := "fields") rfl
    exact read_record (hc.string rfl) hvs (readFields_of_same fields hv.2 hs (by omega)) hv.1
  | .union ts, 0 =>
    rw [height_union] at hb
    omega
  | .union ts, bound + 1 =>
    rw [height_union] at hb
    obtain ⟨ms, rfl, hc⟩ := h.object (by simp)
    obtain ⟨vs, hvs, hs⟩ := hc.array (k := "alternatives") rfl
    exact read_union (hc.string rfl) hvs (readAll_of_same ts hv.2.2 hs (by omega)) hv.1 hv.2.1

theorem readFields_of_same (fields : List (String × TypePhrase)) (hv : ValidFields fields)
    {vs : List Json} (h : List.Forall₂ Same vs (fieldsToJson fields)) {bound : Nat}
    (hb : Json.heightAll (fieldsToJson fields) ≤ bound + 1) :
    List.Forall₂ (fun v f => readField bound v = .ok f) vs fields := by
  match fields with
  | [] =>
    obtain rfl := List.forall₂_nil_right_iff.1 h
    exact .nil
  | (name, t) :: fields =>
    obtain ⟨v, vs, hs, hvs, rfl⟩ := List.forall₂_cons_right_iff.1 h
    simp only [fieldsToJson, Json.heightAll, Json.height] at hb
    exact .cons (readField_ok hs fun w hw => read_of_same t hv.1 hw (by omega))
      (readFields_of_same fields hv.2 hvs (by omega))

theorem readAll_of_same (ts : List TypePhrase) (hv : ValidAll ts) {vs : List Json}
    (h : List.Forall₂ Same vs (allToJson ts)) {bound : Nat}
    (hb : Json.heightAll (allToJson ts) ≤ bound) :
    List.Forall₂ (fun v t => read bound v = .ok t) vs ts := by
  match ts with
  | [] =>
    obtain rfl := List.forall₂_nil_right_iff.1 h
    exact .nil
  | t :: ts =>
    obtain ⟨v, vs, hs, hvs, rfl⟩ := List.forall₂_cons_right_iff.1 h
    simp only [allToJson, Json.heightAll] at hb
    exact .cons (read_of_same t hv.1 hs (by omega)) (readAll_of_same ts hv.2 hvs (by omega))

end

theorem ofJson_of_same {t : TypePhrase} (hv : t.Valid) {v : Json} (h : v.Same t.toJson) :
    ofJson v = .ok t := by
  rw [ofJson, h.height]
  exact read_of_same t hv h (Nat.le_refl _)

theorem isNull_toJson (t : TypePhrase) : t.toJson.isNull = false := by cases t <;> rfl

theorem ofOptional_of_same {t : Option TypePhrase} (hv : ∀ u ∈ t, u.Valid) {v : Json}
    (h : v.Same (optionalType t)) : ofOptional v = .ok t := by
  cases t with
  | none => rw [Json.same_null_iff.1 h]; rfl
  | some t =>
    have hn : v.isNull = false := h.isNull.trans (isNull_toJson t)
    rw [ofOptional, hn, ofJson_of_same (hv t rfl) h]
    rfl

/-! ## Only valid types are read -/

theorem valid_of_readField {bound : Nat} (ih : ∀ v t, read bound v = .ok t → t.Valid) {v : Json}
    {f : String × TypePhrase} (h : readField bound v = .ok f) : f.2.Valid := by
  obtain ⟨⟨name, w⟩, -, h⟩ := bind_ok_iff.1 h
  obtain ⟨t, ht, h⟩ := bind_ok_iff.1 h
  obtain rfl := Except.ok.inj h
  exact ih w t ht

theorem valid_of_read {bound : Nat} {v : Json} {t : TypePhrase} (h : read bound v = .ok t) :
    t.Valid := by
  induction bound generalizing v t with
  | zero => cases h
  | succ bound ih =>
    rw [read] at h
    obtain ⟨ms, -, h⟩ := bind_ok_iff.1 h
    dsimp only at h
    split at h
    · obtain ⟨name, -, h⟩ := bind_ok_iff.1 h
      exact valid_of_named? (mapError_ok_iff.1 h)
    · obtain ⟨w, -, h⟩ := bind_ok_iff.1 h
      obtain ⟨u, hu, h⟩ := bind_ok_iff.1 h
      obtain rfl := Except.ok.inj h
      have hvalid : u.Valid := ih hu
      exact hvalid
    · obtain ⟨w, -, h⟩ := bind_ok_iff.1 h
      obtain ⟨vs, -, h⟩ := bind_ok_iff.1 h
      obtain ⟨fields, hf, h⟩ := bind_ok_iff.1 h
      have hfields := forall_of_mapM (fun _ _ _ => valid_of_readField fun _ _ => ih) hf
      exact valid_of_record? hfields (mapError_ok_iff.1 h)
    · obtain ⟨w, -, h⟩ := bind_ok_iff.1 h
      obtain ⟨vs, -, h⟩ := bind_ok_iff.1 h
      obtain ⟨ts, hts, h⟩ := bind_ok_iff.1 h
      exact valid_of_union? (forall_of_mapM (fun _ _ _ => ih) hts) (mapError_ok_iff.1 h)
    · cases h

theorem valid_of_ofOptional {v : Json} {t : Option TypePhrase} (h : ofOptional v = .ok t) :
    ∀ u ∈ t, u.Valid := by
  unfold ofOptional at h
  split at h
  · obtain rfl := Except.ok.inj h
    simp
  · obtain ⟨u, hu, rfl⟩ := map_ok_iff.1 h
    simpa using valid_of_read hu

end TypePhrase

/-! ## Signatures -/

theorem Parameter.ofJson_of_same {p : Parameter} (hv : ∀ t ∈ p.type, t.Valid) {v : Json}
    (h : v.Same p.toJson) : Parameter.ofJson v = .ok p := by
  obtain ⟨ms, rfl, hc⟩ := h.object (by simp)
  obtain ⟨w, hw, hs⟩ := hc "type" _ rfl
  have hname : member? ms "name" = some (.string p.name) := hc.string rfl
  have hoptional : member? ms "optional" = some (.bool p.optional) := hc.bool rfl
  simp [ofJson, Json.required, Json.optional, hname, hw, hoptional,
    TypePhrase.ofOptional_of_same hv hs, Json.asText, Json.isSet, bind, Except.bind, pure,
    Except.pure]

theorem Parameter.forall₂_ofJson {ps : List Parameter} (hv : ∀ p ∈ ps, ∀ t ∈ p.type, t.Valid)
    {vs : List Json} (h : List.Forall₂ Same vs (ps.map Parameter.toJson)) :
    List.Forall₂ (fun v p => Parameter.ofJson v = .ok p) vs ps := by
  induction List.forall₂_map_right_iff.1 h with
  | nil => exact .nil
  | cons hsame hrest ih =>
    obtain ⟨hp, hps⟩ := List.forall_mem_cons.1 hv
    exact .cons (Parameter.ofJson_of_same hp hsame) (ih hps (List.forall₂_map_right_iff.2 hrest))

theorem Signature.ofJson_of_same {s : Signature} (hv : s.Valid) {v : Json} (h : v.Same s.toJson) :
    Signature.ofJson v = .ok s := by
  obtain ⟨hname, hparams, hreturns⟩ := hv
  obtain ⟨ms, rfl, hc⟩ := h.object (by simp)
  obtain ⟨vs, hvs, hs⟩ := hc.array (k := "params") rfl
  obtain ⟨w, hw, hws⟩ := hc "return" _ rfl
  have hn : member? ms "name" = some (.string s.name) := hc.string rfl
  have hread := Parameter.forall₂_ofJson hparams hs
  simp only [ofJson, Json.members, Json.required, Json.optional, hvs, hw, hn, Json.items, bind,
    Except.bind, Option.getD_some]
  refine bind_ok_iff.2 ⟨s.params, mapM_ok_iff.2 hread, ?_⟩
  simp [TypePhrase.ofOptional_of_same hreturns hws, Json.asText, make?, hname, Except.mapError]

theorem Signature.isNull_toJson (s : Signature) : s.toJson.isNull = false := rfl

theorem Signature.ofOptional_of_same {s : Option Signature} (hv : ∀ u ∈ s, u.Valid) {v : Json}
    (h : v.Same (optionalSignature s)) : Signature.ofOptional v = .ok s := by
  cases s with
  | none => rw [Json.same_null_iff.1 h]; rfl
  | some s =>
    have hn : v.isNull = false := h.isNull.trans s.isNull_toJson
    rw [ofOptional, hn, ofJson_of_same (hv s rfl) h]
    rfl

theorem Parameter.valid_of_ofJson {v : Json} {p : Parameter} (h : Parameter.ofJson v = .ok p) :
    ∀ t ∈ p.type, t.Valid := by
  unfold ofJson at h
  split at h
  · obtain ⟨name, -, h⟩ := bind_ok_iff.1 h
    obtain ⟨type, htype, h⟩ := bind_ok_iff.1 h
    obtain rfl := Except.ok.inj h
    exact TypePhrase.valid_of_ofOptional htype
  · cases h

theorem Signature.valid_of_ofJson {v : Json} {s : Signature} (h : Signature.ofJson v = .ok s) :
    s.Valid := by
  unfold ofJson at h
  obtain ⟨ms, -, h⟩ := bind_ok_iff.1 h
  obtain ⟨vs, -, h⟩ := bind_ok_iff.1 h
  obtain ⟨params, hparams, h⟩ := bind_ok_iff.1 h
  obtain ⟨name, -, h⟩ := bind_ok_iff.1 h
  obtain ⟨returns, hreturns, h⟩ := bind_ok_iff.1 h
  have hmake := mapError_ok_iff.1 h
  unfold make? at hmake
  split at hmake
  · cases hmake
  · next hname =>
    obtain rfl := Except.ok.inj hmake
    exact ⟨hname, forall_of_mapM (fun _ _ _ => Parameter.valid_of_ofJson) hparams,
      TypePhrase.valid_of_ofOptional hreturns⟩

theorem Signature.valid_of_ofOptional {v : Json} {s : Option Signature}
    (h : Signature.ofOptional v = .ok s) : ∀ u ∈ s, u.Valid := by
  unfold ofOptional at h
  split at h
  · obtain rfl := Except.ok.inj h
    simp
  · obtain ⟨u, hu, rfl⟩ := map_ok_iff.1 h
    have hvalid : u.Valid := valid_of_ofJson hu
    simpa using hvalid

end Concordance
