import SeriesStream.Proofs.Decoding
import SeriesStream.Proofs.Json.Document
import SeriesStream.Proofs.Lookup

namespace SeriesStream.Json

theorem arePrintable_iff {items : List Json} : ArePrintable items ↔ ∀ item ∈ items, item.Printable := by
  induction items with
  | nil => simp [ArePrintable]
  | cons item items ih => simp [ArePrintable, ih]

theorem printable_ofString (s : String) : (ofString s).Printable := by
  rw [ofString, Printable]
  exact ⟨s, rfl⟩

theorem printable_ofInt (n : Int) : (ofInt n).Printable := by
  rw [ofInt, Printable]
  exact Numeral.wellFormed_ofInt n

theorem printable_ofFloat (x : Float) : (ofFloat x).Printable := by
  unfold ofFloat
  split
  next =>
    rw [Printable]
    exact Numeral.wellFormed_ofFloat x
  next =>
    rw [Printable]
    trivial

theorem printable_array {items : List Json} (h : ∀ item ∈ items, item.Printable) : (array items).Printable := by
  rw [Printable]
  exact arePrintable_iff.mpr h

theorem printable_ofFields {fields : List (String × Json)} (h : ∀ field ∈ fields, field.2.Printable) :
    (ofFields fields).Printable := by
  rw [ofFields, Printable]
  induction fields with
  | nil => simp [AreMembersPrintable]
  | cons field fields ih =>
    obtain ⟨hfield, hfields⟩ := List.forall_mem_cons.mp h
    simp only [List.map_cons, AreMembersPrintable]
    exact ⟨⟨field.1, rfl⟩, hfield, ih hfields⟩

theorem isSound_ofString (depth : Nat) (s : String) : (ofString s).isSound depth = true := by
  cases depth <;> simp [ofString, isSound, Quoted.string?_ofString]

theorem Numeral.value_of_shown {t : Int} (h : Instant.Shown t) : (ofInt t).value? = some (.integer t) := by
  obtain ⟨hlow, hhigh⟩ := h
  unfold Instant.latest at hhigh
  exact value_ofInt hlow (by omega)

theorem isSound_ofInt (depth : Nat) {t : Int} (h : Instant.Shown t) : (ofInt t).isSound depth = true := by
  cases depth <;> simp [ofInt, isSound, Numeral.value_of_shown h]

theorem isSound_array (depth : Nat) (items : List Json) :
    (array items).isSound (depth + 1) = items.all (isSound depth) := by
  rw [isSound]
  induction items with
  | nil => simp [areSound]
  | cons item items ih => simp [areSound, ih]

theorem isSound_ofFields (depth : Nat) (fields : List (String × Json)) :
    (ofFields fields).isSound (depth + 1) = fields.all fun f => f.2.isSound depth := by
  rw [ofFields, isSound]
  induction fields with
  | nil => simp [areMembersSound]
  | cons field fields ih => simp [areMembersSound, ih, Quoted.string?_ofString]

namespace Decoder

theorem whole_toText {α : Type} (d : Decoder α) {v : Json} (h : v.Printable) :
    whole d (Glyph.ofString v.toText) = d v := by
  unfold whole
  rw [read_toText h]
  show (d v >>= fun value => pure value) = d v
  exact bind_pure _

theorem string_ofString (s : String) : string (ofString s) = .ok s := by
  simp [string, ofString, Quoted.string?_ofString]

theorem stringKey_ofString (s : String) : stringKey (Quoted.ofString s) = .ok s := by
  simp [stringKey, Quoted.string?_ofString]

theorem instant_ofInt {t : Int} (h : Instant.Shown t) : instant (ofInt t) = .ok t := by
  simp only [instant, ofInt, integer, Numeral.value_of_shown h]
  exact if_pos h

theorem map_object {κ ν : Type} [Ord κ] [Std.TransOrd κ] [Std.LawfulEqOrd κ]
    (key : Quoted → Except DecodeError κ) (d : Decoder ν) (members : List (Quoted × Json)) :
    map key d (object members) = (members.mapM fun m => return (← key m.1, ← d m.2)) >>= fun entries =>
      .ok (OrderedMap.ofList entries) := rfl

/-- A printed map is read back when its keys and its values are. -/
theorem map_ofFields {κ ν : Type} [Ord κ] [Std.TransOrd κ] [Std.LawfulEqOrd κ] {m : OrderedMap κ ν}
    {key : Quoted → Except DecodeError κ} {d : Decoder ν} (name : κ → String) (form : ν → Json)
    (hkey : ∀ e ∈ m.entries, key (Quoted.ofString (name e.1)) = .ok e.1)
    (hvalue : ∀ e ∈ m.entries, d (form e.2) = .ok e.2) :
    map key d (ofFields (m.entries.map fun e => (name e.1, form e.2))) = .ok m := by
  have hentries (entries : List (κ × ν)) (hkey : ∀ e ∈ entries, key (Quoted.ofString (name e.1)) = .ok e.1)
      (hvalue : ∀ e ∈ entries, d (form e.2) = .ok e.2) :
      ((entries.map fun e => (name e.1, form e.2)).map fun f => (Quoted.ofString f.1, f.2)).mapM
        (fun m => return (← key m.1, ← d m.2)) = (.ok entries : Except DecodeError (List (κ × ν))) := by
    induction entries with
    | nil => rfl
    | cons e entries ih =>
      obtain ⟨hkey, hkeys⟩ := List.forall_mem_cons.mp hkey
      obtain ⟨hvalue, hvalues⟩ := List.forall_mem_cons.mp hvalue
      simp only [List.map_cons, List.mapM_cons, hkey, hvalue, ih hkeys hvalues]
      rfl
  rw [ofFields, map_object, hentries m.entries hkey hvalue]
  exact congrArg Except.ok m.ofList_entries

@[simp] theorem Field.name_of {α : Type} (name : String) (d : Decoder α) : (Field.of name d).name = name := rfl

@[simp] theorem Field.check_of {α : Type} (name : String) (d : Decoder α) (v : Json) :
    (Field.of name d).check v = (d v).map fun _ => () := rfl

theorem fieldsByName_known {fields : List Field} {field : Field} {seen : List (String × Json)}
    (known : fields.find? (·.name = field.name) = some field) (unseen : seen.lookup field.name = none)
    (value : Json) (rest : List (Quoted × Json)) :
    fieldsByName fields seen ((Quoted.ofString field.name, value) :: rest) =
      field.check value >>= fun _ => fieldsByName fields ((field.name, value) :: seen) rest := by
  rw [fieldsByName, stringKey_ofString]
  simp only [bind, Except.bind, known, unseen, Option.isSome_none, Bool.false_eq_true, if_false]

theorem fieldsByName_ofFields {fields : List Field} {members : List (Field × Json)}
    (known : ∀ m ∈ members, fields.find? (·.name = m.1.name) = some m.1)
    (fresh : (members.map (·.1.name)).Nodup) {seen : List (String × Json)}
    (unseen : ∀ m ∈ members, seen.lookup m.1.name = none) :
    fieldsByName fields seen (members.map fun m => (Quoted.ofString m.1.name, m.2)) =
      (members.forM fun m => m.1.check m.2) >>= fun _ =>
        .ok ((members.map fun m => (m.1.name, m.2)).reverse ++ seen) := by
  induction members generalizing seen with
  | nil => rfl
  | cons m members ih =>
    obtain ⟨hknown, hknowns⟩ := List.forall_mem_cons.mp known
    obtain ⟨hunseen, hunseens⟩ := List.forall_mem_cons.mp unseen
    obtain ⟨hfresh, hfreshs⟩ := List.nodup_cons.mp fresh
    have hstill : ∀ a ∈ members, List.lookup a.1.name ((m.1.name, m.2) :: seen) = none := by
      intro a ha
      have hne : a.1.name ≠ m.1.name := fun heq => hfresh (List.mem_map.mpr ⟨a, ha, heq⟩)
      rw [List.lookup_cons, beq_false_of_ne hne]
      exact hunseens a ha
    have hchecks : ((m :: members).forM fun m => m.1.check m.2) =
        m.1.check m.2 >>= fun _ => members.forM fun m => m.1.check m.2 := rfl
    rw [List.map_cons, fieldsByName_known hknown hunseen, ih hknowns hfreshs hstill, hchecks, bind_assoc]
    simp

/-- A printed record is read back by fields of its names, if it passes their checks. -/
theorem fields_ofFields (members : List (Field × Json)) (fresh : (members.map (·.1.name)).Nodup) :
    fields (members.map (·.1)) (ofFields (members.map fun m => (m.1.name, m.2))) =
      (members.forM fun m => m.1.check m.2) >>= fun _ => .ok (members.map fun m => (m.1.name, m.2)).reverse := by
  have hknown : ∀ m ∈ members, (members.map (·.1)).find? (·.name = m.1.name) = some m.1 := by
    induction members with
    | nil => simp
    | cons head members ih =>
      obtain ⟨hfresh, hfreshs⟩ := List.nodup_cons.mp fresh
      intro m hm
      rcases List.mem_cons.mp hm with rfl | hm
      · simp
      · have hne : head.1.name ≠ m.1.name := fun heq => hfresh (List.mem_map.mpr ⟨m, hm, heq.symm⟩)
        rw [List.map_cons, List.find?_cons_of_neg (by simpa using hne)]
        exact ih hfreshs m hm
  have hread := fieldsByName_ofFields hknown fresh fun _ _ => List.lookup_nil
  rw [List.append_nil] at hread
  rw [ofFields, fields, List.map_map]
  exact hread

/-- A printed record of one field is read as that field. -/
theorem field_ofFields {α : Type} (name : String) (d : Decoder α) (v : Json) :
    (fields [.of name d] (ofFields [(name, v)]) >>= fun found => required found name d) = d v := by
  have hfields : fields [.of name d] (ofFields [(name, v)]) = _ := fields_ofFields [(.of name d, v)] (by simp)
  rw [hfields]
  cases hd : d v with
  | error e => simp [hd, Except.map, bind, Except.bind]
  | ok a => simp [required, hd, Except.map, bind, Except.bind, pure, Except.pure]

/-- Printed items that are read back make their list again. -/
theorem list_ok {α : Type} {d : Decoder α} {form : α → Json} {items : List α}
    (h : ∀ a ∈ items, d (form a) = .ok a) : list d (array (items.map form)) = .ok items := by
  rw [list]
  induction items with
  | nil => rfl
  | cons a items ih =>
    obtain ⟨ha, hitems⟩ := List.forall_mem_cons.mp h
    rw [List.map_cons, List.mapM_cons, ha, ih hitems]
    rfl

/-- One item that is not read spoils the list. -/
theorem list_error {α : Type} {d : Decoder α} {items : List Json} {v : Json} (hv : v ∈ items) {e : DecodeError}
    (h : d v = .error e) : ∃ e, list d (array items) = .error e := by
  have hall : ∀ item ∈ items, (∃ a, d item = .ok a) ∨ ∃ e, d item = .error e ∧ True := by
    intro item _
    cases d item with
    | ok a => exact Or.inl ⟨a, rfl⟩
    | error e => exact Or.inr ⟨e, rfl, trivial⟩
  obtain ⟨e, he, -⟩ := mapM_of_failing hall ⟨v, hv, e, h⟩
  exact ⟨e, he⟩

end Decoder

end SeriesStream.Json
