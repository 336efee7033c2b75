import MomentumChain.Json.Record
import MomentumChain.Proofs.Json.Text
import MomentumChain.Proofs.Text
import Mathlib.Data.List.Basic

/-!
# Forms that read back what they hold

A form should read back every value from the JSON value that holds it (`Form.ReadsBack`).  A form
that is built of others does so if they do.  A record needs distinct names too, since its fields
are looked up by name.  A missing member has a default in some records, but what is written has
every member, so there the defaults do not matter.
-/

namespace MomentumChain

theorem mapM_congr_left {α β : Type} {f g : α → Option β} {l : List α}
    (h : ∀ a ∈ l, f a = g a) : l.mapM f = l.mapM g := by
  induction l with
  | nil => rfl
  | cons a l ih =>
      rw [List.forall_mem_cons] at h
      rw [List.mapM_cons, List.mapM_cons, h.1, ih h.2]

theorem mapM_eq_some {α β : Type} {f : α → Option β} {g : α → β} {l : List α}
    (h : ∀ a ∈ l, f a = some (g a)) : l.mapM f = some (l.map g) :=
  (mapM_congr_left h).trans List.mapM_pure

namespace Json

/-! ## Members of an object -/

namespace Value

/-- The members with plain names. -/
def plain (members : List (String × Value)) : List (Option String × Value) :=
  members.map fun (name, v) => (some name, v)

theorem named_cons_self (name : String) (v : Value) (members : List (String × Value)) :
    named name (plain ((name, v) :: members)) = v :: named name (plain members) := by
  simp [named, plain]

theorem named_cons_of_ne {name other : String} (h : other ≠ name) (v : Value)
    (members : List (String × Value)) :
    named name (plain ((other, v) :: members)) = named name (plain members) := by
  simp [named, plain, h]

theorem named_of_notMem {name : String} {members : List (String × Value)}
    (h : name ∉ members.map Prod.fst) : named name (plain members) = [] := by
  induction members with
  | nil => rfl
  | cons member members ih =>
      rw [List.map_cons, List.mem_cons, not_or] at h
      rw [named_cons_of_ne (Ne.symm h.1), ih h.2]

/-- Under distinct names a member is the only one with its name. -/
theorem named_of_mem {members : List (String × Value)} (hnodup : (members.map Prod.fst).Nodup)
    {name : String} {v : Value} (h : (name, v) ∈ members) : named name (plain members) = [v] := by
  induction members with
  | nil => cases h
  | cons member members ih =>
      obtain ⟨hnotMem, hnodup⟩ := List.nodup_cons.mp hnodup
      cases List.mem_cons.mp h with
      | inl heq =>
          subst heq
          rw [named_cons_self, named_of_notMem hnotMem]
      | inr hmem =>
          have hne : member.1 ≠ name := fun heq =>
            hnotMem (heq ▸ List.mem_map_of_mem (f := Prod.fst) hmem)
          rw [← ih hnodup hmem]
          exact named_cons_of_ne hne member.2 members

theorem mapM_only? {members : List (String × Value)} (hnodup : (members.map Prod.fst).Nodup) :
    (members.map Prod.fst).mapM (fun name => only? (named name (plain members))) =
      some (members.map Prod.snd) := by
  rw [List.mapM_map]
  refine mapM_eq_some fun member hmem => ?_
  show only? (named member.1 (plain members)) = some member.2
  rw [named_of_mem hnodup hmem]
  rfl

/-- Where no member is missing, the defaults do not matter. -/
theorem mapM_onlyOr? {members defaults : List (String × Value)}
    (hnodup : (members.map Prod.fst).Nodup)
    (hnames : defaults.map Prod.fst = members.map Prod.fst) :
    defaults.mapM (fun (name, default) => onlyOr? default (named name (plain members))) =
      some (members.map Prod.snd) := by
  have hpresent : ∀ default ∈ defaults, onlyOr? default.2 (named default.1 (plain members)) =
      only? (named default.1 (plain members)) := by
    intro default hmem
    have hname : default.1 ∈ members.map Prod.fst := hnames ▸ List.mem_map_of_mem hmem
    obtain ⟨member, hmember, heq⟩ := List.mem_map.mp hname
    rw [← heq, named_of_mem hnodup hmember]
    rfl
  rw [← mapM_only? hnodup, ← hnames, List.mapM_map]
  exact mapM_congr_left hpresent

theorem all_plain (members : List (String × Value)) :
    (plain members).all (fun member => member.1.isSome) = true := by
  simp [plain]

variable {names : List String} {values : List Value}

/-- The values of a record are found by their names. -/
theorem fields?_record (hnodup : names.Nodup) (hlength : values.length = names.length) :
    fields? names (record (names.zip values)) = some values := by
  have hnames : (names.zip values).map Prod.fst = names := List.map_fst_zip (by omega)
  have hvalues : (names.zip values).map Prod.snd = values := List.map_snd_zip (by omega)
  have hread := mapM_only? (hnames.symm ▸ hnodup)
  rw [hnames, hvalues] at hread
  exact (if_pos (all_plain _)).trans hread

/-- The values of a record with defaults are found by their names. -/
theorem fieldsOr?_record (hnodup : names.Nodup) (hlength : values.length = names.length)
    {defaults : List Value} (hdefaults : defaults.length = names.length) :
    fieldsOr? (names.zip defaults) (record (names.zip values)) = some values := by
  have hnames : (names.zip values).map Prod.fst = names := List.map_fst_zip (by omega)
  have hvalues : (names.zip values).map Prod.snd = values := List.map_snd_zip (by omega)
  have hdefaultNames : (names.zip defaults).map Prod.fst = names := List.map_fst_zip (by omega)
  have hread := mapM_onlyOr? (hnames.symm ▸ hnodup) (hdefaultNames.trans hnames.symm)
  rw [hvalues] at hread
  exact (if_pos (all_plain _)).trans hread

end Value

/-! ## Fields -/

/-- There is a value for each name, and the fields are read back from them. -/
structure Members.ReadsBack {α : Type} (members : Members α) : Prop where
  length_write : ∀ fields, (members.write fields).length = members.names.length
  read_write : ∀ fields, members.read? (members.write fields) = some fields

/-- Every value is read back from the JSON value that holds it. -/
def Form.ReadsBack {α : Type} (form : Form α) : Prop :=
  ∀ value, form.read? (form.write value) = some value

theorem Members.ReadsBack.nil : Members.nil.ReadsBack where
  length_write _ := rfl
  read_write _ := rfl

theorem Members.ReadsBack.cons {α β : Type} {name : String} {form : Form α} {rest : Members β}
    (hform : form.ReadsBack) (hrest : rest.ReadsBack) :
    (Members.cons name form rest).ReadsBack where
  length_write fields := congrArg (· + 1) (hrest.length_write fields.2)
  read_write fields := by
    simp only [Members.cons, hform fields.1, hrest.read_write fields.2]
    rfl

/-! ## Forms -/

namespace Form

variable {α β : Type}

theorem bool_readsBack : bool.ReadsBack := fun _ => rfl

theorem word_readsBack : word.ReadsBack := by
  intro n
  show (if n.toNat < UInt64.size then some (UInt64.ofNat n.toNat) else none) = some n
  rw [if_pos n.toNat_lt, UInt64.ofNat_toNat]

theorem byte_readsBack : byte.ReadsBack := by
  intro n
  show (if n.toNat < UInt8.size then some (UInt8.ofNat n.toNat) else none) = some n
  rw [if_pos n.toNat_lt, UInt8.ofNat_toNat]

theorem string_readsBack : string.ReadsBack := fun _ => rfl

theorem ofTexts_readsBack {text : α → String} {read? : String → Option α}
    (h : ∀ a, read? (text a) = some a) : (ofTexts text read?).ReadsBack := h

theorem address_readsBack : address.ReadsBack :=
  ofTexts_readsBack fun a => by rw [Address.read_text]; rfl

theorem token_readsBack : token.ReadsBack :=
  ofTexts_readsBack fun a => by rw [Token.read_text]; rfl

theorem hash_readsBack : hash.ReadsBack := ofTexts_readsBack Hash.read?_text

theorem amount_readsBack : amount.ReadsBack := ofTexts_readsBack Amount.read?_text

theorem choice_readsBack {name : α → String} {ofName? : String → Option α}
    (h : ∀ a, ofName? (name a) = some a) : (choice name ofName?).ReadsBack := h

theorem list_readsBack {form : Form α} (h : form.ReadsBack) : (list form).ReadsBack := by
  intro items
  show (items.map form.write).mapM form.read? = some items
  rw [List.mapM_map]
  exact (mapM_eq_some fun a _ => h a).trans (congrArg some (List.map_id items))

theorem bytes_readsBack : bytes.ReadsBack := list_readsBack byte_readsBack

theorem vector_readsBack (size : Nat) : (vector size).ReadsBack := by
  intro v
  show (bytes.read? (bytes.write v.toList)).bind _ = _
  rw [bytes_readsBack]
  exact Bytes.toVector?_toList v

/-- A record is read back if its names are distinct and it is made of its fields. -/
theorem record_readsBack {members : Members α} {toFields : β → α} {ofFields : α → β}
    (hmembers : members.ReadsBack) (hnodup : members.names.Nodup)
    (hfields : ∀ r, ofFields (toFields r) = r) : (record members toFields ofFields).ReadsBack := by
  intro r
  have hvalues := Value.fields?_record hnodup (hmembers.length_write (toFields r))
  simp only [record, Members.named, hvalues, Option.bind_eq_bind, Option.bind_some,
    hmembers.read_write, hfields, pure]

theorem recordWithDefaults_readsBack {members : Members α} {toFields : β → α}
    {ofFields : α → β} {default : β} (hmembers : members.ReadsBack)
    (hnodup : members.names.Nodup) (hfields : ∀ r, ofFields (toFields r) = r) :
    (recordWithDefaults members toFields ofFields default).ReadsBack := by
  intro r
  have hvalues := Value.fieldsOr?_record hnodup (hmembers.length_write (toFields r))
    (hmembers.length_write (toFields default))
  simp only [recordWithDefaults, Members.named, hvalues, Option.bind_eq_bind, Option.bind_some,
    hmembers.read_write, hfields, pure]

end Form

end Json

end MomentumChain
