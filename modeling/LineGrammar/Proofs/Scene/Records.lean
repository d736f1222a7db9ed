/-
Records read back.  A record that is written with its fields in a row is read by putting the
fields into a draft, one after another.  From this colors, keys and generators come back as
they were, gradients in the order in which they were kept.
-/
import LineGrammar.Proofs.Gradient.Discrete
import LineGrammar.Proofs.Gradient.Rebuilding
import LineGrammar.Proofs.Number.Widening
import LineGrammar.Scene.Colors

namespace LineGrammar

section Reading

variable {D : Type} {names : List String} {put : String → Value → D → Except SceneFault D}

/-- An entry that names a field of the record for the first time is put into the draft. -/
theorem Reading.entry_of_not_mem {reading : Reading D} {name : String} (value : Value)
    (hname : name ∈ names) (hseen : name ∉ reading.seen) :
    Reading.entry names put reading (.text name, value) =
      (put name value reading.draft).map fun draft => ⟨name :: reading.seen, draft⟩ := by
  have hfield : Reading.field? names (.text name) = .ok (some name) := by
    simp [Reading.field?, hname]
  have hmeet : reading.meet name = .ok { reading with seen := name :: reading.seen } := by
    simp [Reading.meet, hseen]
  simp only [Reading.entry, hfield, hmeet, bind, Except.bind, pure, Except.pure]
  cases put name value reading.draft <;> rfl

theorem Reading.foldlM_entry {fields : List (String × Value)} (reading : Reading D)
    (hnames : ∀ field ∈ fields, field.1 ∈ names) (hfields : (fields.map (·.1)).Nodup)
    (hseen : ∀ field ∈ fields, field.1 ∉ reading.seen) :
    ((fields.map fun field => (Value.text field.1, field.2)).foldlM
        (Reading.entry names put) reading).map (·.draft) =
      fields.foldlM (fun draft field => put field.1 field.2 draft) reading.draft := by
  induction fields generalizing reading with
  | nil => rfl
  | cons field rest ih =>
      rw [List.forall_mem_cons] at hnames hseen
      rw [List.map_cons, List.nodup_cons] at hfields
      rw [List.map_cons, List.foldlM_cons, List.foldlM_cons,
        Reading.entry_of_not_mem field.2 hnames.1 hseen.1]
      cases put field.1 field.2 reading.draft with
      | error fault => rfl
      | ok draft =>
          refine ih ⟨field.1 :: reading.seen, draft⟩ hnames.2 hfields.2 fun other hother => ?_
          rw [List.mem_cons, not_or]
          refine ⟨fun heq => hfields.1 ?_, hseen.2 other hother⟩
          rw [← heq]
          exact List.mem_map_of_mem hother

/-- A record is read by putting its fields into the draft, one after another. -/
theorem readRecord_record {fields : List (String × Value)} (empty : D)
    (hnames : ∀ field ∈ fields, field.1 ∈ names) (hfields : (fields.map (·.1)).Nodup) :
    readRecord names put empty (.record fields) =
      (fields.foldlM (fun draft field => put field.1 field.2 draft) empty).map (⟨·, false⟩) := by
  rw [← Reading.foldlM_entry ⟨[], empty⟩ hnames hfields fun _ _ => List.not_mem_nil]
  simp only [Value.record, readRecord, bind, Except.bind, pure, Except.pure]
  cases (fields.map fun field => (Value.text field.1, field.2)).foldlM
    (Reading.entry names put) ⟨[], empty⟩ <;> rfl

end Reading

namespace Reader

theorem natBelow_nat {bound number : Nat} (h : number < bound) :
    natBelow bound (.nat number) = .ok number :=
  if_pos h

theorem byte_nat (channel : UInt8) : byte (.nat channel.toNat) = .ok channel := by
  simp [byte, natBelow_nat channel.toNat_lt, bind, Except.bind, pure, Except.pure]

theorem single_widen (x : Float32) : single (.float (Precision.widen x)) = .ok x :=
  congrArg Except.ok (Precision.narrow_widen x)

theorem mapM_map_eq_ok {A B : Type} {read : B → Except SceneFault A} {write : A → B} {list : List A}
    (h : ∀ x ∈ list, read (write x) = .ok x) : (list.map write).mapM read = .ok list := by
  induction list with
  | nil => rfl
  | cons x rest ih =>
      rw [List.forall_mem_cons] at h
      rw [List.map_cons, List.mapM_cons, h.1, ih h.2]
      rfl

end Reader

theorem Color.ofValue_toValue (color : Color) : Color.ofValue color.toValue = .ok color := by
  simp only [Color.ofValue, Color.toValue]
  rw [readRecord_record _ (by simp [fieldNames]) (by simp)]
  simp [putField, Reader.byte_nat, Drafted.require, Draft.empty, bind, Except.bind, pure,
    Except.pure, Except.map]

/-- A key comes back with its position if that is a number. -/
theorem LinearKey.ofValue_toValue {key : LinearKey} (h : ¬ key.position.value.isNaN) :
    LinearKey.ofValue key.toValue = .ok key := by
  simp only [LinearKey.ofValue, LinearKey.toValue]
  rw [readRecord_record _ (by simp) (by simp)]
  simp [putField, Color.ofValue_toValue, Reader.single_widen, Position.ofValue_value h,
    Drafted.require, bind, Except.bind, pure, Except.pure, Except.map]

theorem DiscreteKey.ofValue_toValue {key : DiscreteKey} (h : key.index < 0x100000000) :
    DiscreteKey.ofValue key.toValue = .ok key := by
  simp only [DiscreteKey.ofValue, DiscreteKey.toValue]
  rw [readRecord_record _ (by simp) (by simp)]
  simp [putField, Color.ofValue_toValue, Reader.natBelow_nat h, Drafted.require, bind,
    Except.bind, pure, Except.pure, Except.map]

theorem readSole_record {A : Type} {name : String} {read : Reader A} {value : Value} {result : A}
    (h : read value = .ok result) : readSole name read (.record [(name, value)]) = .ok result := by
  rw [readSole, readRecord_record _ (by simp) (by simp)]
  simp [h, Drafted.require, bind, Except.bind, pure, Except.pure, Except.map]

namespace Tagged

variable {fields : List (String × Value)}

theorem not_isTag (h : ∀ field ∈ fields, field.1 ≠ tag) :
    ∀ entry ∈ fields.map fun field => (Value.text field.1, field.2), ¬ isTag entry = true := by
  intro entry hentry
  obtain ⟨field, hfield, rfl⟩ := List.mem_map.mp hentry
  simpa [isTag] using h field hfield

/-- The entries of a record with a tag of which one is the tag. -/
theorem filter_isTag (kind : Value) (h : ∀ field ∈ fields, field.1 ≠ tag) :
    ((Value.text tag, kind) :: fields.map fun field => (Value.text field.1, field.2)).filter
      isTag = [(.text tag, kind)] := by
  have htag : isTag (Value.text tag, kind) = true := by simp [isTag]
  rw [List.filter_cons_of_pos htag, List.filter_eq_nil_iff.mpr (not_isTag h)]

/-- A record splits into the kind that its tag names and its other fields. -/
theorem split_record {K : Type} {kinds : List (String × K)} {name : String} {kind : K}
    (nested : Bool) (hkind : kinds.lookup name = some kind)
    (h : ∀ field ∈ fields, field.1 ≠ tag) :
    split nested kinds (record name fields) = .ok (kind, .record fields) := by
  have hrest : ((Value.text tag, Value.text name) ::
      fields.map fun field => (Value.text field.1, field.2)).filter (fun entry => !isTag entry) =
        fields.map fun field => (Value.text field.1, field.2) := by
    have htag : isTag (Value.text tag, Value.text name) = true := by simp [isTag]
    rw [List.filter_cons_of_neg (by simp [htag]), List.filter_eq_self.mpr]
    intro entry hentry
    simpa using not_isTag h entry hentry
  simp only [record, Value.record, List.map_cons, split, filter_isTag _ h, hrest, kindOf, hkind,
    Reader.ofOption]
  rfl

end Tagged

namespace Generator

/-- Whether a generator can be kept in a document: a gradient has come about by the changes
that there are, all its positions are numbers, and none is a negative zero. -/
inductive Storable : Generator → Prop
  | constant (color : Color) : Storable (.constant color)
  | linear {gradient : LinearGradient} (h : LinearGradient.Reachable (fun _ => True) gradient)
      (hnumbers : ∀ position ∈ gradient.positions, ¬ position.isNaN ∧ position ≠ -0.0) :
      Storable (.linear gradient)
  | discrete {gradient : DiscreteGradient} (h : DiscreteGradient.Reachable gradient) :
      Storable (.discrete gradient)

/-- A generator is kept as a record of its kind and one field. -/
theorem split_sole {name : String} {kind : Kind} (nested : Bool) (field : String) (value : Value)
    (hkind : kinds.lookup name = some kind) (hfield : field ≠ Tagged.tag) :
    Tagged.split nested kinds (Tagged.record name [(field, value)]) =
      .ok (kind, .record [(field, value)]) :=
  Tagged.split_record nested hkind (List.forall_mem_singleton.mpr hfield)

theorem ofValue_toValue {generator : Generator} (h : generator.Storable) (nested : Bool) :
    ofValue nested generator.toValue = .ok generator := by
  cases h with
  | constant color =>
      rw [ofValue, toValue, split_sole nested "color" color.toValue rfl (by decide)]
      simp only [bind, Except.bind, readSole_record (Color.ofValue_toValue color)]
      rfl
  | @linear gradient h hnumbers =>
      have hkeys : Reader.list LinearKey.ofValue (.seq (gradient.keys.map LinearKey.toValue)) =
          .ok gradient.keys :=
        Reader.mapM_map_eq_ok fun key hkey =>
          LinearKey.ofValue_toValue (hnumbers _ (List.mem_map_of_mem hkey)).1
      have hproper := h.proper fun position hposition => (hnumbers position hposition).1
      have hrebuilt := hproper.ofKeys_keys fun position hposition => (hnumbers position hposition).2
      rw [ofValue, toValue, split_sole nested "keys" _ rfl (by decide)]
      simp only [bind, Except.bind, readSole_record hkeys, hrebuilt]
      rfl
  | @discrete gradient h =>
      obtain ⟨-, hproper, -⟩ := h.proper
      have hkeys : Reader.list DiscreteKey.ofValue (.seq (gradient.keys.map DiscreteKey.toValue)) =
          .ok gradient.keys := by
        refine Reader.mapM_map_eq_ok fun key hkey => DiscreteKey.ofValue_toValue ?_
        have hle := hproper.bounded key.index (List.mem_map_of_mem hkey)
        exact Nat.lt_of_le_of_lt hle (by decide)
      rw [ofValue, toValue, split_sole nested "keys" _ rfl (by decide)]
      simp only [bind, Except.bind, readSole_record hkeys, h.ofKeys_keys]
      rfl

/-- Gradients that are read are made from keys. -/
theorem cases_of_ofValue {generator : Generator} {nested : Bool} {value : Value}
    (h : ofValue nested value = .ok generator) :
    (∃ color, generator = .constant color) ∨
      (∃ keys gradient, LinearGradient.ofKeys keys = .ok gradient ∧
        generator = .linear gradient) ∨
      ∃ keys gradient, DiscreteGradient.ofKeys keys = .ok gradient ∧
        generator = .discrete gradient := by
  obtain ⟨⟨kind, rest⟩, -, h⟩ := (bind_eq_ok_iff _ _ _).mp h
  cases kind with
  | constant =>
      obtain ⟨color, -, h⟩ := (bind_eq_ok_iff _ _ _).mp h
      exact .inl ⟨color, (Except.ok.inj h).symm⟩
  | linear =>
      obtain ⟨keys, -, h⟩ := (bind_eq_ok_iff _ _ _).mp h
      obtain ⟨gradient, hgradient, h⟩ := (bind_eq_ok_iff _ _ _).mp h
      exact .inr (.inl ⟨keys, gradient, (mapError_eq_ok_iff _ _ _).mp hgradient,
        (Except.ok.inj h).symm⟩)
  | discrete =>
      obtain ⟨keys, -, h⟩ := (bind_eq_ok_iff _ _ _).mp h
      obtain ⟨gradient, hgradient, h⟩ := (bind_eq_ok_iff _ _ _).mp h
      exact .inr (.inr ⟨keys, gradient, (mapError_eq_ok_iff _ _ _).mp hgradient,
        (Except.ok.inj h).symm⟩)

end Generator

end LineGrammar
